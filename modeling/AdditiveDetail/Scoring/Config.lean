/-
What a stream of frames looks like: the size of its pictures and the
layout of its frames. A scorer is made for one configuration.
-/
import AdditiveDetail.Error
import AdditiveDetail.Binary.Arithmetic

namespace AdditiveDetail

structure Config where
  dims : Dims
  format : PixelFormat
  deriving DecidableEq

namespace Config

/-- Full high definition in the first of the formats. -/
instance : Inhabited Config := ⟨⟨⟨1920, 1080⟩, default⟩⟩

/-- A picture must have samples. -/
def validate (c : Config) : Except Error Unit :=
  if c.dims.Nonempty then .ok () else .error (.invalidDimensions c.dims)

/-- The noise floor of a picture of `floorPixels` samples. -/
def floorShare : Binary64 := .ofDecimal false 1 (-2)

/-- The count of samples that the noise floor refers to. -/
def floorPixels : Binary64 := .ofNat (1920 * 1080)

/-- The noise floor, in proportion to the area of a picture. -/
def noiseFloor (c : Config) : Binary64 :=
  floorShare * .ofNat c.dims.area / floorPixels

end Config

end AdditiveDetail
