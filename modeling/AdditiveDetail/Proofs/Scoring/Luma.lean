/-
Only luma counts.

# Planes that are alike

Of a plane a scorer looks at four things: its size, its depth, the kind of
its buffer and its picture. Planes that have these in common are `Alike`,
and no scorer tells them apart (`process_congr`). What stands between the
rows of a buffer or behind its last row is none of the four, so buffers
that agree at the places of the samples make planes that are alike,
whatever their strides (`alike_of_samples`).

# Videos with the same luma

`SameLuma` says of two videos that they have the same size, depth and luma
planes. Their frames may differ in length, and then frame `i` starts at
another byte in each of them; the reader sees to that
(`sameLuma_of_bytes`). A run over two videos asks for nothing but the
checks in front of it and the luma planes, so it is one run for all videos
with the same luma (`score_congr`).
-/
import AdditiveDetail.Proofs.Video.Reading
import AdditiveDetail.Scoring.Sequence

namespace AdditiveDetail

-- ============================================================== alike planes

namespace Plane

/-- Two planes with one picture, in buffers of one kind. -/
structure Alike (p p' : Plane) : Prop where
  depth_eq : p.depth = p'.depth
  holds_eq : ∀ depth, p.samples.holds depth = p'.samples.holds depth
  image_eq : p.image = p'.image

theorem Alike.refl (p : Plane) : p.Alike p := ⟨rfl, fun _ => rfl, rfl⟩

theorem Alike.dims_eq {p p' : Plane} (h : p.Alike p') : p.dims = p'.dims :=
  congrArg Image.dims h.image_eq

/-- Buffers of one kind that agree at the places of the samples make planes
that are alike. -/
theorem alike_of_samples {samples samples' : Samples} {dims : Dims}
    {stride stride' depth : Nat} {p p' : Plane}
    (hp : ofSamples samples dims stride depth = .ok p)
    (hp' : ofSamples samples' dims stride' depth = .ok p')
    (hholds : ∀ depth, samples.holds depth = samples'.holds depth)
    (hsample : ∀ row < dims.height, ∀ col < dims.width, ∀ h h',
      samples.get (row * stride + col) h
        = samples'.get (row * stride' + col) h') :
    p.Alike p' := by
  obtain ⟨rfl, rfl, rfl, rfl⟩ := ofSamples_eq_ok_iff.1 hp
  obtain ⟨rfl, hdims, rfl, hdepth⟩ := ofSamples_eq_ok_iff.1 hp'
  refine ⟨hdepth.symm, hholds, ?_⟩
  obtain ⟨samples', dims', stride', depth', hne, hle, henough⟩ := p'
  obtain rfl : dims' = p.dims := hdims
  unfold image
  congr 1
  funext row col
  have hcell := hsample row row.isLt col col.isLt
  simp only [Nat.mul_comm row.val] at hcell
  exact congrArg Nat.cast (hcell (p.index_lt row col) (index_lt
    ⟨samples', p.dims, stride', depth', hne, hle, henough⟩ row col))

/-- Places that show the same show the same number. -/
theorem value_congr {α : Type} (value : α → Nat) {data data' : Array α}
    {i i' : Nat} (h : data[i]? = data'[i']?) (hi : i < data.size)
    (hi' : i' < data'.size) : value data[i] = value data'[i'] := by
  rw [Array.getElem?_eq_getElem hi, Array.getElem?_eq_getElem hi'] at h
  exact congrArg value (Option.some.inj h)

theorem alike_of_bytes {data data' : Array UInt8} {dims : Dims}
    {stride stride' : Nat} {p p' : Plane}
    (hp : ofBytes data dims stride = .ok p)
    (hp' : ofBytes data' dims stride' = .ok p')
    (hdata : ∀ row < dims.height, ∀ col < dims.width,
      data[row * stride + col]? = data'[row * stride' + col]?) :
    p.Alike p' :=
  alike_of_samples hp hp' (fun depth => by cases depth <;> rfl)
    fun row hrow col hcol => value_congr UInt8.toNat (hdata row hrow col hcol)

theorem alike_of_words {data data' : Array UInt16} {dims : Dims}
    {stride stride' depth : Nat} {p p' : Plane}
    (hp : ofWords data dims stride depth = .ok p)
    (hp' : ofWords data' dims stride' depth = .ok p')
    (hdata : ∀ row < dims.height, ∀ col < dims.width,
      data[row * stride + col]? = data'[row * stride' + col]?) :
    p.Alike p' :=
  alike_of_samples hp hp' (fun depth => by cases depth <;> rfl)
    fun row hrow col hcol => value_congr UInt16.toNat (hdata row hrow col hcol)

end Plane

namespace Scorer

theorem checkPlane_congr {p p' : Plane} (h : p.Alike p') (config : Config) :
    checkPlane config p = checkPlane config p' := by
  simp only [checkPlane, h.dims_eq, h.depth_eq, h.holds_eq]

/-- No scorer tells planes apart that are alike. -/
theorem process_congr {reference reference' distorted distorted' : Plane}
    (hr : reference.Alike reference') (hd : distorted.Alike distorted')
    (s : Scorer) :
    s.process reference distorted = s.process reference' distorted' := by
  unfold process score
  rw [checkPlane_congr hr, checkPlane_congr hd, hr.image_eq, hd.image_eq]

/-- Two planes are interchangeable: on either side, every scorer gives the same
answer to both and is left the same. -/
def Interchangeable (p p' : Plane) : Prop :=
  ∀ (s : Scorer) (other : Plane),
    s.process p other = s.process p' other ∧
    s.process other p = s.process other p'

theorem interchangeable_of_alike {p p' : Plane} (h : p.Alike p') :
    Interchangeable p p' :=
  fun s other => ⟨process_congr h (.refl other) s,
    process_congr (.refl other) h s⟩

end Scorer

-- ================================================================= same luma

namespace RawVideo

/-- Two videos with the same luma planes, whatever their chroma planes are
and however many samples these have. -/
structure SameLuma (v v' : RawVideo) : Prop where
  dims_eq : v.dims = v'.dims
  depth_eq : v.format.depth = v'.format.depth
  frameCount_eq : v.frameCount = v'.frameCount
  readLuma_eq : ∀ index < v.frameCount, v.readLuma index = v'.readLuma index

/-- They agree at every index, also where neither has a frame. -/
theorem SameLuma.readLuma {v v' : RawVideo} (h : v.SameLuma v') :
    v.readLuma = v'.readLuma := by
  funext index
  rcases Nat.lt_or_ge index v.frameCount with hlt | hge
  · exact h.readLuma_eq index hlt
  · rw [readLuma_error hge, readLuma_error (h.frameCount_eq ▸ hge),
      h.frameCount_eq]

/-- The luma planes are the same if the bytes at their places are. -/
theorem sameLuma_of_bytes {v v' : RawVideo} (hdims : v.dims = v'.dims)
    (hdepth : v.format.depth = v'.format.depth)
    (hcount : v.frameCount = v'.frameCount)
    (hbytes : ∀ index < v.frameCount, ∀ k < v.format.lumaBytes v.dims,
      v.bytes[index * v.frameBytes + k]?
        = v'.bytes[index * v'.frameBytes + k]?) :
    v.SameLuma v' := by
  refine ⟨hdims, hdepth, hcount, fun index hindex => ?_⟩
  have hindex' : index < v'.frameCount := hcount ▸ hindex
  have hluma : v.format.lumaBytes v.dims = v'.format.lumaBytes v'.dims := by
    unfold PixelFormat.lumaBytes
    rw [hdims, hdepth]
  have hslice : v.bytes.extract (index * v.frameBytes)
        (index * v.frameBytes + v.format.lumaBytes v.dims)
      = v'.bytes.extract (index * v'.frameBytes)
        (index * v'.frameBytes + v'.format.lumaBytes v'.dims) := by
    apply Array.ext_getElem?
    intro k
    rw [Array.getElem?_extract, Array.getElem?_extract,
      Nat.min_eq_left (luma_end_le hindex),
      Nat.min_eq_left (luma_end_le hindex'), Nat.add_sub_cancel_left,
      Nat.add_sub_cancel_left, ← hluma]
    split
    · next hk => exact hbytes index hindex k hk
    · rfl
  rw [readLuma_eq (luma_extract hindex), readLuma_eq (luma_extract hindex'),
    hslice, hdims, hdepth]

end RawVideo

namespace Sequence

open RawVideo

variable {reference reference' distorted distorted' : RawVideo}

theorem checkVideo_congr {v v' : RawVideo} (h : v.SameLuma v')
    (config : Config) : checkVideo config v = checkVideo config v' := by
  unfold checkVideo
  rw [h.dims_eq, h.depth_eq]

theorem pairCount_congr (hr : reference.SameLuma reference')
    (hd : distorted.SameLuma distorted') (config : Config) :
    pairCount reference distorted config
      = pairCount reference' distorted' config := by
  unfold pairCount
  rw [checkVideo_congr hr, checkVideo_congr hd, hr.frameCount_eq,
    hd.frameCount_eq]

/-- One index of two videos is scored from their luma planes. -/
theorem scorePair_congr (hr : reference.SameLuma reference')
    (hd : distorted.SameLuma distorted') :
    scorePair reference distorted = scorePair reference' distorted' := by
  funext s index
  unfold scorePair
  rw [hr.readLuma, hd.readLuma]

/-- So is a run of indices. -/
theorem scoreFrames_congr (hr : reference.SameLuma reference')
    (hd : distorted.SameLuma distorted') (indices : List Nat) (s : Scorer) :
    scoreFrames reference distorted indices s
      = scoreFrames reference' distorted' indices s := by
  induction indices generalizing s with
  | nil => rfl
  | cons index rest ih =>
      unfold scoreFrames
      rw [scorePair_congr hr hd]
      cases scorePair reference' distorted' s index with
      | mk result s' =>
          cases result with
          | error failure => rfl
          | ok score => simp only [ih]

/-- A run over two videos sees nothing of them but their luma. -/
theorem score_congr (hr : reference.SameLuma reference')
    (hd : distorted.SameLuma distorted') (s : Scorer) :
    score reference distorted s = score reference' distorted' s := by
  unfold score
  rw [pairCount_congr hr hd, hd.frameCount_eq]
  simp only [scoreFrames_congr hr hd]

/-- LUMA ALONE counts. A buffer makes a plane exactly if the picture is not
empty, a row fits into the stride and the last row into the buffer; buffers
that agree at the places of the samples make interchangeable planes, whatever
their strides and whatever else they hold. Videos with the same luma planes
give the same run, also if their chroma planes differ in content or in size,
and the luma planes are the same if their bytes are, wherever in each of the
files they stand. -/
theorem luma_alone :
    (∀ data dims stride, (∃ p, Plane.ofBytes data dims stride = .ok p)
      ↔ dims.Nonempty ∧ dims.width ≤ stride ∧
        stride * (dims.height - 1) + dims.width ≤ data.size) ∧
    (∀ data dims stride depth,
      (∃ p, Plane.ofWords data dims stride depth = .ok p)
      ↔ dims.Nonempty ∧ dims.width ≤ stride ∧
        stride * (dims.height - 1) + dims.width ≤ data.size) ∧
    (∀ data data' dims stride stride' p p',
      Plane.ofBytes data dims stride = .ok p →
      Plane.ofBytes data' dims stride' = .ok p' →
      (∀ row < dims.height, ∀ col < dims.width,
        data[row * stride + col]? = data'[row * stride' + col]?) →
      Scorer.Interchangeable p p') ∧
    (∀ data data' dims stride stride' depth p p',
      Plane.ofWords data dims stride depth = .ok p →
      Plane.ofWords data' dims stride' depth = .ok p' →
      (∀ row < dims.height, ∀ col < dims.width,
        data[row * stride + col]? = data'[row * stride' + col]?) →
      Scorer.Interchangeable p p') ∧
    (∀ reference reference' distorted distorted' : RawVideo,
      reference.SameLuma reference' → distorted.SameLuma distorted' →
      ∀ s, score reference distorted s = score reference' distorted' s) ∧
    (∀ v v' : RawVideo, v.dims = v'.dims → v.format.depth = v'.format.depth →
      v.frameCount = v'.frameCount →
      (∀ index < v.frameCount, ∀ k < v.format.lumaBytes v.dims,
        v.bytes[index * v.frameBytes + k]?
          = v'.bytes[index * v'.frameBytes + k]?) →
      v.SameLuma v') := by
  refine ⟨fun _ _ _ => Plane.exists_ofSamples_iff,
    fun _ _ _ _ => Plane.exists_ofSamples_iff, ?_, ?_, ?_, ?_⟩
  · intro data data' dims stride stride' p p' hp hp' hdata
    exact Scorer.interchangeable_of_alike (Plane.alike_of_bytes hp hp' hdata)
  · intro data data' dims stride stride' depth p p' hp hp' hdata
    exact Scorer.interchangeable_of_alike (Plane.alike_of_words hp hp' hdata)
  · intro reference reference' distorted distorted' hr hd s
    exact score_congr hr hd s
  · intro v v' hdims hdepth hcount hbytes
    exact sameLuma_of_bytes hdims hdepth hcount hbytes

/-- Two frames of two samples, with chroma planes of one sample each. -/
def halvedClip : RawVideo where
  bytes := #[1, 2, 90, 91, 3, 4, 92, 93]
  dims := ⟨1, 2⟩
  format := ⟨.both, .eight⟩
  nonempty := by decide
  whole := by decide

/-- The same luma between chroma planes of two samples each. -/
def fullClip : RawVideo where
  bytes := #[1, 2, 70, 71, 72, 73, 3, 4, 74, 75, 76, 77]
  dims := ⟨1, 2⟩
  format := ⟨.none, .eight⟩
  nonempty := by decide
  whole := by decide

/-- A padded buffer against a packed one, of bytes and of words, the packed one
with something behind its last row, and videos of two subsamplings. -/
theorem luma_alone_clips :
    (∃ p p', Plane.ofBytes #[5, 99, 7] ⟨1, 2⟩ 2 = .ok p ∧
      Plane.ofBytes #[5, 7, 98] ⟨1, 2⟩ 1 = .ok p' ∧
      Scorer.Interchangeable p p') ∧
    (∃ p p', Plane.ofWords #[500, 99, 700] ⟨1, 2⟩ 2 10 = .ok p ∧
      Plane.ofWords #[500, 700, 98] ⟨1, 2⟩ 1 10 = .ok p' ∧
      Scorer.Interchangeable p p') ∧
    halvedClip.SameLuma fullClip ∧
    ∀ s, score halvedClip fullClip s = score fullClip halvedClip s := by
  obtain ⟨hbytes, hwords, hpadded, hpadded', hrun, hsame⟩ := luma_alone
  have hclips : halvedClip.SameLuma fullClip :=
    hsame _ _ rfl rfl rfl (by decide)
  have hclips' : fullClip.SameLuma halvedClip :=
    hsame _ _ rfl rfl rfl (by decide)
  obtain ⟨p, hp⟩ := (hbytes #[5, 99, 7] ⟨1, 2⟩ 2).2 (by decide)
  obtain ⟨p', hp'⟩ := (hbytes #[5, 7, 98] ⟨1, 2⟩ 1).2 (by decide)
  obtain ⟨q, hq⟩ := (hwords #[500, 99, 700] ⟨1, 2⟩ 2 10).2 (by decide)
  obtain ⟨q', hq'⟩ := (hwords #[500, 700, 98] ⟨1, 2⟩ 1 10).2 (by decide)
  refine ⟨⟨p, p', hp, hp', ?_⟩, ⟨q, q', hq, hq', ?_⟩, hclips, ?_⟩
  · exact hpadded _ _ _ _ _ p p' hp hp' (by decide)
  · exact hpadded' _ _ _ _ _ _ q q' hq hq' (by decide)
  · exact hrun _ _ _ _ hclips hclips'

end Sequence

end AdditiveDetail
