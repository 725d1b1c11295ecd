/-
Planes that are read out of buffers and files.

# Buffers

A buffer makes a plane exactly if the picture is not empty, a row fits into
the stride and the last row into the buffer (`exists_ofSamples_iff`). The
plane is then the buffer as it was given (`ofSamples_eq_ok_iff`).

# Files

A file opens exactly if its length is a whole number of frames
(`exists_ofFile_iff`). The frames of an opened file lie side by side: each
is a slice that ends inside of the file (`frame_slice`), its luma plane a
slice from its start that ends inside of it (`luma_slice`), and all frames
put together are the file (`flatten_frames`). So every frame has a luma
plane (`readLuma_ok`), whatever the file holds.
-/
import AdditiveDetail.Proofs.Pieces
import AdditiveDetail.Video.RawVideo

namespace AdditiveDetail

-- =================================================================== buffers

namespace Plane

variable {samples : Samples} {dims : Dims} {stride depth : Nat}

/-- A plane is a buffer as it was given. -/
theorem ofSamples_eq_ok_iff {p : Plane} :
    ofSamples samples dims stride depth = .ok p
      ↔ p.samples = samples ∧ p.dims = dims ∧ p.stride = stride ∧
        p.depth = depth := by
  constructor
  · intro h
    unfold ofSamples at h
    split at h
    · split at h
      · dsimp only at h
        split at h
        · cases h
          exact ⟨rfl, rfl, rfl, rfl⟩
        · cases h
      · cases h
    · cases h
  · rintro ⟨rfl, rfl, rfl, rfl⟩
    unfold ofSamples
    rw [dif_pos p.nonempty, dif_pos p.width_le_stride]
    exact dif_pos p.enough

/-- Which buffers make a plane. -/
theorem exists_ofSamples_iff :
    (∃ p, ofSamples samples dims stride depth = .ok p)
      ↔ dims.Nonempty ∧ dims.width ≤ stride ∧
        stride * (dims.height - 1) + dims.width ≤ samples.size := by
  constructor
  · rintro ⟨p, hp⟩
    obtain ⟨rfl, rfl, rfl, rfl⟩ := ofSamples_eq_ok_iff.1 hp
    exact ⟨p.nonempty, p.width_le_stride, p.enough⟩
  · rintro ⟨nonempty, width_le_stride, enough⟩
    exact ⟨{ samples, dims, stride, depth, nonempty, width_le_stride, enough },
      ofSamples_eq_ok_iff.2 ⟨rfl, rfl, rfl, rfl⟩⟩

/-- A buffer of just the samples of a picture reaches to its end. -/
theorem packed_enough (hd : dims.Nonempty)
    (hsize : samples.size = dims.area) :
    dims.width * (dims.height - 1) + dims.width ≤ samples.size := by
  rw [hsize, Dims.area, ← Nat.mul_succ]
  exact Nat.le_of_eq (congrArg _ (Nat.succ_pred_eq_of_pos hd.height_pos))

end Plane

-- ===================================================================== bytes

namespace Depth

/-- The samples that the bytes of a plane hold. -/
def samples : Depth → Bytes → Samples
  | .eight, bytes => .bytes bytes
  | .ten, bytes => .words (RawVideo.wordsOfBytes bytes)

theorem holds_samples (depth : Depth) (bytes : Bytes) :
    (depth.samples bytes).holds depth := by
  cases depth <;> rfl

theorem size_samples {depth : Depth} {bytes : Bytes} {count : Nat}
    (h : bytes.size = count * depth.bytes) :
    (depth.samples bytes).size = count := by
  cases depth with
  | eight => exact h.trans (Nat.mul_one _)
  | ten =>
      have htwo : bytes.size = count * 2 := h
      simp only [samples, Samples.size, RawVideo.wordsOfBytes, Array.size_ofFn]
      omega

end Depth

theorem PixelFormat.frameBytes_pos (format : PixelFormat) {d : Dims}
    (hd : d.Nonempty) : 0 < format.frameBytes d := by
  have harea : 0 < d.area := Nat.mul_pos hd.width_pos hd.height_pos
  have hbytes : 0 < format.depth.bytes := by cases format.depth <;> decide
  exact Nat.mul_pos (Nat.add_pos_left harea _) hbytes

theorem PixelFormat.lumaBytes_le (format : PixelFormat) (d : Dims) :
    format.lumaBytes d ≤ format.frameBytes d :=
  Nat.mul_le_mul_right _ (Nat.le_add_right ..)

-- ============================================================ opening a file

namespace RawVideo

variable {bytes : Bytes} {d : Dims} {format : PixelFormat} {v : RawVideo}
  {index : Nat}

/-- An opened file is the file as it was given. -/
theorem ofFile_eq_ok_iff :
    ofFile (.ok bytes) d format = .ok v
      ↔ v.bytes = bytes ∧ v.dims = d ∧ v.format = format := by
  constructor
  · intro h
    unfold ofFile ofBytes at h
    split at h
    · dsimp only at h
      split at h
      · cases h
        exact ⟨rfl, rfl, rfl⟩
      · cases h
    · cases h
  · rintro ⟨rfl, rfl, rfl⟩
    unfold ofFile ofBytes
    rw [if_pos v.nonempty]
    dsimp only
    rw [dif_pos v.nonempty, dif_pos v.whole]

/-- Which files open. -/
theorem exists_ofFile_iff (hd : d.Nonempty) :
    (∃ v, ofFile (.ok bytes) d format = .ok v)
      ↔ format.frameBytes d ∣ bytes.size := by
  constructor
  · rintro ⟨v, hv⟩
    obtain ⟨rfl, rfl, rfl⟩ := ofFile_eq_ok_iff.1 hv
    exact Nat.dvd_of_mod_eq_zero v.whole
  · intro h
    exact ⟨{ bytes, dims := d, format, nonempty := hd
             whole := Nat.mod_eq_zero_of_dvd h },
      ofFile_eq_ok_iff.2 ⟨rfl, rfl, rfl⟩⟩

-- ==================================================================== slices

/-- The bytes between two places, if there are bytes so far. -/
def slice? (bytes : Bytes) (start stop : Nat) : Option Bytes :=
  if start ≤ stop ∧ stop ≤ bytes.size then some (bytes.extract start stop)
  else none

theorem slice?_eq {start stop : Nat} (hstart : start ≤ stop)
    (hstop : stop ≤ bytes.size) :
    slice? bytes start stop = some (bytes.extract start stop) :=
  if_pos ⟨hstart, hstop⟩

/-- A slice from the start is a first part. -/
theorem slice?_prefix {part : Bytes} {stop : Nat}
    (h : slice? bytes 0 stop = some part) : part.toList <+: bytes.toList := by
  unfold slice? at h
  split at h
  · cases h
    rw [Array.toList_extract, List.extract_eq_take_drop, List.drop_zero]
    exact List.take_prefix ..
  · cases h

theorem size_extract_of_le {start stop : Nat} (hstop : stop ≤ bytes.size) :
    (bytes.extract start stop).size = stop - start := by
  rw [Array.size_extract, Nat.min_eq_left hstop]

/-- A frame of an opened file ends inside of the file. -/
theorem frame_end_le (h : index < v.frameCount) :
    index * v.frameBytes + v.frameBytes ≤ v.bytes.size := by
  rw [← Nat.succ_mul]
  exact Nat.le_trans (Nat.mul_le_mul_right _ h) (Nat.div_mul_le_self ..)

theorem luma_end_le (h : index < v.frameCount) :
    index * v.frameBytes + v.format.lumaBytes v.dims ≤ v.bytes.size :=
  Nat.le_trans (Nat.add_le_add_left (v.format.lumaBytes_le v.dims) _)
    (frame_end_le h)

/-- The frame at an index is a slice of the file. -/
theorem frame_slice (h : index < v.frameCount) : ∃ frame,
    slice? v.bytes (index * v.frameBytes)
      (index * v.frameBytes + v.frameBytes) = some frame ∧
    v.frame index = .ok frame ∧ frame.size = v.frameBytes := by
  refine ⟨_, slice?_eq (Nat.le_add_right ..) (frame_end_le h), if_pos h, ?_⟩
  rw [size_extract_of_le (frame_end_le h), Nat.add_sub_cancel_left]

/-- The luma plane of a frame is a slice from the frame's start, with as many
bytes as its samples take. -/
theorem luma_slice (h : index < v.frameCount) : ∃ frame luma,
    v.frame index = .ok frame ∧
    slice? frame 0 (v.format.lumaBytes v.dims) = some luma ∧
    v.luma index = .ok luma ∧
    luma.size = v.dims.area * v.format.depth.bytes := by
  obtain ⟨frame, -, hframe, hsize⟩ := frame_slice h
  have hle : v.format.lumaBytes v.dims ≤ frame.size :=
    hsize ▸ v.format.lumaBytes_le v.dims
  refine ⟨frame, _, hframe, slice?_eq (Nat.zero_le _) hle, ?_,
    size_extract_of_le hle⟩
  unfold luma
  rw [hframe]
  rfl

/-- It is the slice of the file that begins where the frame does. -/
theorem luma_extract (h : index < v.frameCount) :
    v.luma index = .ok (v.bytes.extract (index * v.frameBytes)
      (index * v.frameBytes + v.format.lumaBytes v.dims)) := by
  have hle : v.format.lumaBytes v.dims ≤ v.frameBytes :=
    v.format.lumaBytes_le v.dims
  unfold luma frame
  rw [if_pos h]
  show Except.ok ((v.bytes.extract (index * v.frameBytes)
    (index * v.frameBytes + v.frameBytes)).extract 0
      (v.format.lumaBytes v.dims)) = _
  rw [Array.extract_extract, Nat.add_zero,
    Nat.min_eq_left (Nat.add_le_add_left hle _)]

/-- All frames one after the other are the file. -/
theorem flatten_frames (v : RawVideo) : ∃ frames,
    (List.range v.frameCount).mapM v.frame = .ok frames ∧
      (frames.map Array.toList).flatten = v.bytes.toList := by
  let cut (index : Nat) : Bytes :=
    v.bytes.extract (index * v.frameBytes)
      (index * v.frameBytes + v.frameBytes)
  have hcut : ∀ index ∈ List.range v.frameCount,
      v.frame index = .ok (cut index) :=
    fun index hindex => if_pos (List.mem_range.1 hindex)
  have hwhole : v.bytes.toList.length ≤ v.frameCount * v.frameBytes :=
    Nat.le_of_eq (Nat.div_mul_cancel (Nat.dvd_of_mod_eq_zero v.whole)).symm
  refine ⟨(List.range v.frameCount).map cut, mapM_eq_map hcut, ?_⟩
  rw [List.map_map, ← List.take_of_length_le hwhole,
    ← flatten_first_chunks v.frameBytes]
  congr 1
  refine List.map_congr_left fun index _ => ?_
  rw [Function.comp_apply, Array.toList_extract, List.extract_eq_take_drop,
    Nat.add_sub_cancel_left]

-- ==================================================================== planes

/-- Past the last frame nothing is read. -/
theorem frame_error (h : v.frameCount ≤ index) :
    v.frame index = .error (.frameOutOfRange index v.frameCount) :=
  if_neg (Nat.not_lt.2 h)

theorem luma_error (h : v.frameCount ≤ index) :
    v.luma index = .error (.frameOutOfRange index v.frameCount) := by
  unfold luma
  rw [frame_error h]
  rfl

theorem readLuma_error (h : v.frameCount ≤ index) :
    v.readLuma index = .error (.frameOutOfRange index v.frameCount) := by
  unfold readLuma
  rw [luma_error h]
  rfl

/-- The luma plane of a frame is what its bytes hold, without gaps. -/
theorem readLuma_eq {luma : Bytes} (h : v.luma index = .ok luma) :
    v.readLuma index = (Plane.ofSamples (v.format.depth.samples luma) v.dims
      v.dims.width v.format.depth.bits).map fun plane => ⟨index, plane⟩ := by
  unfold readLuma
  rw [h]
  cases v.format.depth <;> rfl

/-- Every frame has a luma plane. -/
theorem readLuma_ok (h : index < v.frameCount) : ∃ luma plane,
    v.luma index = .ok luma ∧ v.readLuma index = .ok ⟨index, plane⟩ ∧
    plane.samples = v.format.depth.samples luma ∧ plane.dims = v.dims ∧
    plane.depth = v.format.depth.bits := by
  obtain ⟨-, luma, -, -, hluma, hsize⟩ := luma_slice h
  obtain ⟨plane, hplane⟩ := Plane.exists_ofSamples_iff.2 ⟨v.nonempty,
    Nat.le_refl _, Plane.packed_enough v.nonempty (Depth.size_samples hsize)⟩
  obtain ⟨hsamples, hdims, -, hdepth⟩ := Plane.ofSamples_eq_ok_iff.1 hplane
  refine ⟨luma, plane, hluma, ?_, hsamples, hdims, hdepth⟩
  rw [readLuma_eq hluma, hplane]
  rfl

/-- A whole frame is read at an index: nothing is taken from beyond the end of
the file or of the frame, and the luma plane begins the frame and has as many
bytes as the samples that are made of it. -/
def ReadsWhole (v : RawVideo) (index : Nat) : Prop :=
  ∃ frame luma read,
    slice? v.bytes (index * v.frameBytes)
      (index * v.frameBytes + v.frameBytes) = some frame ∧
    v.frame index = .ok frame ∧
    slice? frame 0 (v.format.lumaBytes v.dims) = some luma ∧
    v.luma index = .ok luma ∧
    luma.toList <+: frame.toList ∧
    luma.size = v.dims.area * v.format.depth.bytes ∧
    v.readLuma index = .ok read

theorem readsWhole (h : index < v.frameCount) : v.ReadsWhole index := by
  obtain ⟨frame, hslice, hframe, -⟩ := frame_slice h
  obtain ⟨frame', luma, hframe', hslice', hluma, hsize⟩ := luma_slice h
  cases hframe.symm.trans hframe'
  obtain ⟨-, plane, -, hread, -⟩ := readLuma_ok h
  exact ⟨frame, luma, _, hslice, hframe, hslice', hluma,
    slice?_prefix hslice', hsize, hread⟩

end RawVideo

end AdditiveDetail
