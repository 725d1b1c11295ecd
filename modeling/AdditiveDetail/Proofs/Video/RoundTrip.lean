/-
A clip that is written down is read back.

# The written form

A sample is written as one byte, or as two with the low byte first. A plane
is its samples row after row; a frame is its luma plane and then two chroma
planes, of so many samples as the axes have when they are divided and
rounded up; a recording is frame after frame. The written form takes no
size from the reader: that its frames have as many bytes as the reader
counts with is a theorem (`length_written`).

# Read back

A recording opens as what was recorded, and each of its frames as the plane
that was written (`readLuma_opened`). About the chroma planes nothing is
said but how many bytes they have: the reader steps over them.
-/
import AdditiveDetail.Proofs.Video.Reading
import Mathlib.Algebra.Order.Floor.Div
import Mathlib.Data.List.OfFn

namespace AdditiveDetail

variable {depth : Depth} {format : PixelFormat} {d : Dims}

-- ===================================================================== words

/-- The two bytes of a word, the low byte first. -/
def bytesOfWord (x : UInt16) : List UInt8 :=
  [x.toUInt8, (x / 256).toUInt8]

theorem length_bytesOfWord (x : UInt16) : (bytesOfWord x).length = 2 := rfl

/-- A word is made of its low and its high byte. -/
theorem word_of_bytes (x : UInt16) :
    x.toUInt8.toUInt16 + 256 * (x / 256).toUInt8.toUInt16 = x := by
  apply UInt16.toNat_inj.1
  have hx := x.toNat_lt
  simp only [UInt16.toNat_add, UInt16.toNat_mul, UInt8.toNat_toUInt16,
    UInt16.toNat_toUInt8, UInt16.toNat_div, UInt16.reduceToNat]
  omega

/-- Words that are written are read back. -/
theorem wordsOfBytes_flatMap (xs : List UInt16) :
    RawVideo.wordsOfBytes (xs.flatMap bytesOfWord).toArray = xs.toArray := by
  have hpiece : ∀ x ∈ xs, (bytesOfWord x).length = 2 :=
    fun x _ => length_bytesOfWord x
  have hlength := length_flatMap_pieces hpiece
  apply Array.ext
  · simp only [RawVideo.wordsOfBytes, Array.size_ofFn, List.size_toArray]
    omega
  · intro i _ hi
    have hi : i < xs.length := hi
    obtain ⟨rest, hrest⟩ : ∃ rest, (xs.flatMap bytesOfWord).drop (i * 2)
        = xs[i].toUInt8 :: (xs[i] / 256).toUInt8 :: rest := by
      rw [drop_flatMap hpiece, List.drop_eq_getElem_cons hi]
      exact ⟨_, rfl⟩
    have hlow := congrArg (·[0]?) hrest
    have hhigh := congrArg (·[1]?) hrest
    simp only [List.getElem?_drop, Nat.add_zero, Nat.mul_comm i 2,
      List.getElem?_cons_zero, List.getElem?_cons_succ] at hlow hhigh
    obtain ⟨_, hlow⟩ := List.getElem?_eq_some_iff.1 hlow
    obtain ⟨_, hhigh⟩ := List.getElem?_eq_some_iff.1 hhigh
    simp only [RawVideo.wordsOfBytes, Array.getElem_ofFn,
      List.getElem_toArray, hlow, hhigh]
    exact word_of_bytes xs[i]

-- =================================================================== samples

namespace Depth

/-- A sample as it is stored, of which not all bits need be in use. -/
def Sample : Depth → Type
  | .eight => UInt8
  | .ten => UInt16

/-- The number that a sample stands for. -/
def Sample.value : {depth : Depth} → depth.Sample → Nat
  | .eight, x => UInt8.toNat x
  | .ten, x => UInt16.toNat x

/-- The bytes of a sample. -/
def write : (depth : Depth) → depth.Sample → List UInt8
  | .eight, x => [x]
  | .ten, x => bytesOfWord x

/-- A buffer of samples. -/
def buffer : (depth : Depth) → List depth.Sample → Samples
  | .eight, xs => .bytes xs.toArray
  | .ten, xs => .words xs.toArray

theorem length_write (x : depth.Sample) :
    (depth.write x).length = depth.bytes := by
  cases depth <;> rfl

theorem size_buffer (xs : List depth.Sample) :
    (depth.buffer xs).size = xs.length := by
  cases depth <;> rfl

theorem holds_buffer (xs : List depth.Sample) :
    (depth.buffer xs).holds depth := by
  cases depth <;> rfl

/-- A buffer shows the samples that it was made of. -/
theorem get_buffer (xs : List depth.Sample) (i : Nat)
    (h : i < (depth.buffer xs).size) :
    (depth.buffer xs).get i h
      = (xs.get ⟨i, size_buffer xs ▸ h⟩).value := by
  cases depth <;> rfl

/-- Samples that are written are read back. -/
theorem samples_write (xs : List depth.Sample) :
    depth.samples (xs.flatMap depth.write).toArray = depth.buffer xs := by
  cases depth with
  | eight =>
      exact congrArg (fun ys : List UInt8 => Samples.bytes ys.toArray)
        (List.flatMap_singleton' xs)
  | ten => exact congrArg Samples.words (wordsOfBytes_flatMap xs)

end Depth

-- ==================================================================== planes

/-- The values of a raster are those of its rows. -/
theorem Raster.toList_eq_rows {α : Type} (f : Raster α d) :
    f.toList = (List.finRange d.height).flatMap fun row =>
      (List.finRange d.width).map (f row) := by
  have hcells : f.toList
      = List.ofFn fun k => (Grid.ofRaster f).cells[k] := by
    refine List.ext_getElem (by simp [Raster.toList, Grid.toList]) ?_
    intro k _ _
    rw [List.getElem_ofFn]
    rfl
  rw [hcells, List.ofFn_mul, List.ofFn_eq_map, List.flatMap_def]
  refine congrArg List.flatten (List.map_congr_left fun row _ => ?_)
  rw [List.ofFn_eq_map]
  exact List.map_congr_left fun col _ => Grid.get_ofRaster f row col

theorem Raster.length_toList {α : Type} (f : Raster α d) :
    f.toList.length = d.area := by
  simp [Raster.toList, Grid.toList, Dims.area, Nat.mul_comm]

/-- The value of a row and a column stands behind the rows above it. -/
theorem Raster.get_toList {α : Type} (f : Raster α d) (row : Fin d.height)
    (col : Fin d.width) (h : row * d.width + col < f.toList.length) :
    f.toList.get ⟨row * d.width + col, h⟩ = f row col := by
  exact Grid.get_ofRaster f row col

/-- The bytes of a plane: its samples, row after row. -/
def writePlane (f : Raster depth.Sample d) : List UInt8 :=
  (List.finRange d.height).flatMap fun row =>
    (List.finRange d.width).flatMap fun col => depth.write (f row col)

theorem writePlane_eq (f : Raster depth.Sample d) :
    writePlane f = f.toList.flatMap depth.write := by
  rw [Raster.toList_eq_rows, List.flatMap_assoc]
  simp only [List.flatMap_map]
  rfl

theorem length_writePlane (f : Raster depth.Sample d) :
    (writePlane f).length = d.area * depth.bytes := by
  rw [writePlane_eq, length_flatMap_pieces fun x _ => Depth.length_write x,
    Raster.length_toList]

/-- A picture of samples as a plane without gaps. -/
def Plane.packed (hd : d.Nonempty) (f : Raster depth.Sample d) : Plane where
  samples := depth.buffer f.toList
  dims := d
  stride := d.width
  depth := depth.bits
  nonempty := hd
  width_le_stride := Nat.le_refl _
  enough := packed_enough hd
    ((Depth.size_buffer _).trans (Raster.length_toList f))

/-- The plane shows the picture. -/
theorem Plane.sample_packed (hd : d.Nonempty) (f : Raster depth.Sample d)
    (row : Fin d.height) (col : Fin d.width) :
    (packed hd f).sample row col = (f row col).value := by
  have hplace : d.width * row.val + col.val = row.val * d.width + col.val := by
    rw [Nat.mul_comm]
  have hlt := Nat.lt_of_lt_of_eq ((packed hd f).index_lt row col)
    (Depth.size_buffer _)
  calc (packed hd f).sample row col
      = (f.toList.get ⟨d.width * row.val + col.val, hlt⟩).value :=
        Depth.get_buffer ..
    _ = (f row col).value := by
        congr 1
        rw [← Raster.get_toList f row col (hplace ▸ hlt)]
        congr 2

-- ==================================================================== frames

/-- Samples of a chroma plane: each axis divided, and rounded up. -/
def PixelFormat.chromaSamples (format : PixelFormat) (d : Dims) : Nat :=
  d.width ⌈/⌉ 2 ^ format.subsampling.shifts.1
    * (d.height ⌈/⌉ 2 ^ format.subsampling.shifts.2)

theorem PixelFormat.chromaSamples_eq (format : PixelFormat) (d : Dims) :
    format.chromaSamples d = (format.chromaDims d).area := rfl

/-- A frame to be recorded: the samples of its luma plane, and for its chroma
planes any bytes. -/
structure Recorded (format : PixelFormat) (d : Dims) where
  luma : Raster format.depth.Sample d
  blue : Vector UInt8 (format.chromaSamples d * format.depth.bytes)
  red : Vector UInt8 (format.chromaSamples d * format.depth.bytes)

namespace Recorded

/-- The bytes of a frame: luma, then chroma. -/
def written (frame : Recorded format d) : List UInt8 :=
  writePlane frame.luma ++ (frame.blue.toList ++ frame.red.toList)

/-- The reader counts with as many bytes as a frame has. -/
theorem length_written (frame : Recorded format d) :
    frame.written.length = format.frameBytes d := by
  unfold written PixelFormat.frameBytes
  rw [List.length_append, List.length_append, length_writePlane,
    Vector.length_toList, Vector.length_toList,
    PixelFormat.chromaSamples_eq, ← Nat.two_mul, ← Nat.mul_assoc,
    ← Nat.add_mul]

/-- Its first bytes are those of the luma plane. -/
theorem take_written (frame : Recorded format d) :
    frame.written.take (format.lumaBytes d) = writePlane frame.luma :=
  List.take_left' (length_writePlane frame.luma)

end Recorded

-- ================================================================ recordings

/-- The file that a clip makes: frame after frame. -/
def recording (clip : List (Recorded format d)) : Bytes :=
  (clip.flatMap Recorded.written).toArray

theorem size_recording (clip : List (Recorded format d)) :
    (recording clip).size = clip.length * format.frameBytes d := by
  rw [recording, List.size_toArray,
    length_flatMap_pieces fun frame _ => frame.length_written]

namespace RawVideo

variable (hd : d.Nonempty) (clip : List (Recorded format d)) {index : Nat}

/-- A recording as a video. -/
def recorded : RawVideo where
  bytes := recording clip
  dims := d
  format := format
  nonempty := hd
  whole := by rw [size_recording, Nat.mul_mod_left]

theorem frameCount_recorded : (recorded hd clip).frameCount = clip.length := by
  show (recording clip).size / format.frameBytes d = _
  rw [size_recording, Nat.mul_div_cancel _ (format.frameBytes_pos hd)]

/-- The frame at an index is the one that was written there. -/
theorem frame_recorded (h : index < clip.length) :
    (recorded hd clip).frame index = .ok clip[index].written.toArray := by
  have hpiece := piece_flatMap
    (fun (frame : Recorded format d) _ => frame.length_written) h
  unfold frame
  rw [if_pos ((frameCount_recorded hd clip).symm ▸ h)]
  show Except.ok ((clip.flatMap Recorded.written).toArray.extract
    (index * format.frameBytes d)
    (index * format.frameBytes d + format.frameBytes d)) = _
  rw [List.extract_toArray, List.extract_eq_take_drop,
    Nat.add_sub_cancel_left, hpiece]

theorem luma_recorded (h : index < clip.length) :
    (recorded hd clip).luma index
      = .ok (writePlane clip[index].luma).toArray := by
  unfold luma
  rw [frame_recorded hd clip h, ← Recorded.take_written]
  show Except.ok (clip[index].written.toArray.extract 0 (format.lumaBytes d))
    = _
  rw [List.extract_toArray, List.extract_eq_take_drop, Nat.sub_zero,
    List.drop_zero]

/-- The luma plane at an index is the one that was written there. -/
theorem readLuma_recorded (h : index < clip.length) :
    (recorded hd clip).readLuma index
      = .ok ⟨index, .packed hd clip[index].luma⟩ := by
  have hplane : Plane.ofSamples
      (format.depth.samples (writePlane clip[index].luma).toArray) d d.width
      format.depth.bits = .ok (.packed hd clip[index].luma) := by
    rw [Plane.ofSamples_eq_ok_iff, writePlane_eq, Depth.samples_write]
    exact ⟨rfl, rfl, rfl, rfl⟩
  rw [readLuma_eq (luma_recorded hd clip h)]
  exact congrArg (Except.map _) hplane

/-- All luma planes are those that were written, in their order. -/
theorem frames_recorded : (recorded hd clip).frames
    = clip.mapIdx fun index frame => .ok ⟨index, .packed hd frame.luma⟩ := by
  unfold frames
  rw [frameCount_recorded]
  refine List.ext_getElem (by simp) fun index hindex _ => ?_
  rw [List.length_map, List.length_range] at hindex
  rw [List.getElem_map, List.getElem_range, List.getElem_mapIdx,
    readLuma_recorded hd clip hindex]

/-- READING undoes recording: a recorded clip opens with as many frames as it
has, the luma plane at each index is the one that was written there, sample
by sample, and past the last nothing is read. And whatever a file holds, it
opens exactly if its length is a whole number of frames; its frames, one
after the other, are then the file, and at each index a whole frame is
read. -/
theorem reading_recorded (format : PixelFormat) (d : Dims)
    (hd : d.Nonempty) :
    (∀ clip : List (Recorded format d), ∃ v,
      ofFile (.ok (recording clip)) d format = .ok v ∧
      v.frameCount = clip.length ∧
      (∀ (index : Nat) (h : index < clip.length),
        v.readLuma index = .ok ⟨index, .packed hd clip[index].luma⟩) ∧
      (∀ index, clip.length ≤ index →
        v.readLuma index = .error (.frameOutOfRange index clip.length)) ∧
      v.frames
        = clip.mapIdx fun index frame => .ok ⟨index, .packed hd frame.luma⟩) ∧
    (∀ f : Raster format.depth.Sample d,
      (Plane.packed hd f).depth = format.depth.bits ∧
      (Plane.packed hd f).samples.holds format.depth ∧
      ∀ row col, (Plane.packed hd f).sample row col = (f row col).value) ∧
    (∀ bytes, (∃ v, ofFile (.ok bytes) d format = .ok v)
      ↔ format.frameBytes d ∣ bytes.size) ∧
    (∀ bytes v, ofFile (.ok bytes) d format = .ok v →
      v.bytes = bytes ∧ v.dims = d ∧ v.format = format ∧
      (∃ frames, (List.range v.frameCount).mapM v.frame = .ok frames ∧
        (frames.map Array.toList).flatten = bytes.toList) ∧
      (∀ index < v.frameCount, v.ReadsWhole index) ∧
      ∀ index ≥ v.frameCount,
        v.frame index = .error (.frameOutOfRange index v.frameCount) ∧
        v.luma index = .error (.frameOutOfRange index v.frameCount) ∧
        v.readLuma index = .error (.frameOutOfRange index v.frameCount)) := by
  refine ⟨fun clip => ?_, fun f => ?_, fun bytes => exists_ofFile_iff hd,
    fun bytes v hv => ?_⟩
  · have hcount := frameCount_recorded hd clip
    refine ⟨recorded hd clip, ofFile_eq_ok_iff.2 ⟨rfl, rfl, rfl⟩, hcount,
      fun index => readLuma_recorded hd clip, fun index h => ?_,
      frames_recorded hd clip⟩
    rw [readLuma_error (hcount.symm ▸ h), hcount]
  · exact ⟨rfl, Depth.holds_buffer _, Plane.sample_packed hd f⟩
  · obtain ⟨rfl, rfl, rfl⟩ := ofFile_eq_ok_iff.1 hv
    exact ⟨rfl, rfl, rfl, flatten_frames v, fun index => readsWhole,
      fun index h => ⟨frame_error h, luma_error h, readLuma_error h⟩⟩

/-- Two frames of three samples, each of more than a byte, with chroma planes
of two samples: three halved and rounded up. -/
def oddClip : List (Recorded ⟨.both, .ten⟩ ⟨3, 1⟩) :=
  [{ luma := fun _ col => UInt16.ofNat (256 + col)
     blue := Vector.replicate 4 7, red := Vector.replicate 4 8 },
   { luma := fun _ col => UInt16.ofNat (512 + col)
     blue := Vector.replicate 4 9, red := Vector.replicate 4 10 }]

/-- The second frame stands behind all chroma planes of the first, and a file
that is one byte short does not open. -/
theorem reading_recorded_odd :
    (⟨3, 1⟩ : Dims).Nonempty ∧
    (∃ v read, ofFile (.ok (recording oddClip)) ⟨3, 1⟩ ⟨.both, .ten⟩ = .ok v ∧
      v.frameCount = 2 ∧ v.readLuma 1 = .ok read ∧
      read.plane.samples = .words #[512, 513, 514] ∧
      v.readLuma 2 = .error (.frameOutOfRange 2 2)) ∧
    ¬ ∃ v, ofFile (.ok (recording oddClip).pop) ⟨3, 1⟩ ⟨.both, .ten⟩
      = .ok v := by
  have hd : (⟨3, 1⟩ : Dims).Nonempty := by decide
  obtain ⟨hclip, -, hopens, -⟩ := reading_recorded ⟨.both, .ten⟩ ⟨3, 1⟩ hd
  obtain ⟨v, hv, hcount, hread, hpast, -⟩ := hclip oddClip
  refine ⟨hd, ⟨v, _, hv, hcount, hread 1 (by decide), ?_, hpast 2 (by decide)⟩,
    fun h => ?_⟩
  · rfl
  · have hdvd := (hopens _).1 h
    rw [Array.size_pop, size_recording] at hdvd
    exact absurd hdvd (by decide)

end RawVideo

end AdditiveDetail
