/-
The text of reports: what is printed before a run, after it, and about a
single file. Labels stand at the left in a column of fourteen characters,
numbers at the right of their columns.
-/
import AdditiveDetail.RunConfig
import AdditiveDetail.Score
import AdditiveDetail.Video.RawVideo

namespace AdditiveDetail

-- one power on naturals, whatever else is imported
attribute [local instance(high)] instPowNat

namespace CommandLine

/-- Text at the left of a column. -/
def padRight (width : Nat) (text : String) : String :=
  text.pushn ' ' (width - text.length)

/-- Text at the right of a column. -/
def padLeft (width : Nat) (text : String) : String :=
  "".pushn ' ' (width - text.length) ++ text

/-- A line of a report: a label and what it says. -/
def labelLine (label text : String) : String :=
  "  " ++ padRight 14 label ++ text ++ "\n"

def pyramidText (separator : String) (d : Dims) : String :=
  separator.intercalate (d.pyramid.map Dims.text)

/-- What is about to be scored. -/
def runHeader (c : RunConfig) (referenceFrames distortedFrames : Nat) :
    String :=
  let video (path : String) (frames : Nat) : String :=
    path ++ s!" ({frames} frames)"
  let stats := match c.stats.file with
    | some path => path ++ " (label '" ++ c.stats.label.text ++ "')"
    | none => "disabled"
  "\n  ADM Score\n  " ++ "".pushn '═' 9 ++ "\n\n"
    ++ labelLine "Reference" (video c.reference referenceFrames)
    ++ labelLine "Distorted" (video c.distorted distortedFrames)
    ++ labelLine "Geometry" (c.stream.dims.text ++ " " ++ c.stream.format.name)
    ++ labelLine "Sub-bands" (pyramidText " → " c.stream.dims)
    ++ labelLine "Stats" stats
    ++ labelLine "Mode" (if c.parallel then "parallel" else "sequential")
    ++ "\n"

/-- A line of a table, its columns two blanks apart. -/
def tableLine (columns : List String) : String :=
  "    " ++ "  ".intercalate columns ++ "\n"

def frameTable (frames : List FrameScore) : String :=
  let line (number value num den : String) : String :=
    tableLine [padLeft 8 number, padLeft 8 value, padLeft 12 num,
      padLeft 12 den]
  "\n  Frames\n" ++ line "Frame #" "Score" "Num" "Den"
    ++ String.join (frames.map fun f =>
      line (toString f.index) (f.score.value.toFixed 4)
        (f.score.num.toFixed 1) (f.score.den.toFixed 1))

/-- Mean numerators and denominators, by scale. -/
def scaleTable (frames : List FrameScore) : String :=
  let line (scale num den : String) : String :=
    tableLine [padLeft 6 scale, padLeft 12 num, padLeft 12 den]
  let mean (part : ScaleScore → Binary64) (scale : Fin Dims.scaleCount) :
      String :=
    (Binary.mean (frames.map fun f => part (f.score.scales.get scale))).toFixed 1
  "\n  Per-scale mean\n" ++ line "Scale" "Num" "Den"
    ++ String.join ((List.finRange Dims.scaleCount).map fun scale =>
      line (toString scale.val) (mean ScaleScore.num scale)
        (mean ScaleScore.den scale))

/-- What has been scored. -/
def summaryReport (s : Summary) (perFrame : Bool) : String :=
  (if perFrame then frameTable s.frames else "")
    ++ (if s.frames.isEmpty then "" else scaleTable s.frames)
    ++ "\n" ++ labelLine "Scored" (toString s.frames.length)
    ++ (if s.passedThrough = 0 then ""
      else labelLine "Unscored"
        s!"{s.passedThrough} distorted frame(s) without reference")
    ++ labelLine "ADM AVG" (s.average.toFixed 3) ++ "\n"

/-- Bytes as millions of bytes, in binary. -/
def megabytes (bytes : Nat) : Binary64 :=
  .ofNat bytes / .ofNat (2 ^ (20 : Nat))

/-- What a file holds. -/
def fileReport (path : String) (v : RawVideo) : String :=
  let line (label text : String) : String :=
    padRight 13 (label ++ ":") ++ text ++ "\n"
  let config : Config := ⟨v.dims, v.format⟩
  line "File" path
    ++ line "Frames" (toString v.frameCount)
    ++ line "Dimensions" v.dims.text
    ++ line "Format" v.format.name
    ++ line "Bit depth" (toString v.format.depth.bits)
    ++ line "Frame size" s!"{v.frameBytes} bytes"
    ++ line "Data size"
      ((megabytes (v.frameBytes * v.frameCount)).toFixed 1 ++ " MB")
    ++ line "Sub-bands" (pyramidText " -> " v.dims)
    ++ line "Noise floor" (config.noiseFloor.toFixed 6)

end CommandLine

end AdditiveDetail
