import AdditiveDetail.Main
import AdditiveDetail.Proofs.Binary.RationalRounding
import AdditiveDetail.Proofs.Binary.Denotation
import AdditiveDetail.Proofs.Binary.CubeRoot
import AdditiveDetail.Proofs.Detail.Quotient
import AdditiveDetail.Proofs.Detail.Stages
import AdditiveDetail.Proofs.Detail.Contribution
import AdditiveDetail.Proofs.Detail.Identity
import AdditiveDetail.Proofs.Wavelet.Bounds
import AdditiveDetail.Proofs.Wavelet.Machine
import AdditiveDetail.Proofs.Wavelet.Checked
import AdditiveDetail.Proofs.Scoring.Pictures
import AdditiveDetail.Proofs.Scoring.Machine
import AdditiveDetail.Proofs.Scoring.History
import AdditiveDetail.Proofs.Scoring.Sequence
import AdditiveDetail.Proofs.Scoring.Identity
import AdditiveDetail.Proofs.Scoring.Workers
import AdditiveDetail.Proofs.Scoring.Headroom
import AdditiveDetail.Proofs.Digits
import AdditiveDetail.Proofs.Binary.Printing
import AdditiveDetail.Proofs.Binary.RootOrder
import AdditiveDetail.Proofs.Detail.Reach
import AdditiveDetail.Proofs.Detail.Comparison
import AdditiveDetail.Proofs.Detail.Attenuation
import AdditiveDetail.Proofs.Detail.CubeSums
import AdditiveDetail.Proofs.Scoring.Totals
import AdditiveDetail.Proofs.Detail.Lost
import AdditiveDetail.Proofs.Wavelet.Flat
import AdditiveDetail.Proofs.Scoring.Flat
import AdditiveDetail.Proofs.Scoring.Extremes
import AdditiveDetail.Proofs.Detail.Indexed
import AdditiveDetail.Proofs.Scoring.Safety
import AdditiveDetail.Proofs.Binary.Signs
import AdditiveDetail.Proofs.Scoring.Checks
import AdditiveDetail.Proofs.Scoring.Calls
import AdditiveDetail.Proofs.Pieces
import AdditiveDetail.Proofs.Scoring.Pairing
import AdditiveDetail.Proofs.Video.Reading
import AdditiveDetail.Proofs.Video.RoundTrip
import AdditiveDetail.Proofs.Scoring.Luma
import AdditiveDetail.Proofs.Detail.Monotone
import AdditiveDetail.Proofs.Dictionary
import AdditiveDetail.Proofs.Scoring.Progress
import AdditiveDetail.Proofs.Toml.Document
import AdditiveDetail.Proofs.RunConfig
import AdditiveDetail.Proofs.CommandLine.Scripts
import AdditiveDetail.Proofs.CommandLine.Files
import AdditiveDetail.Proofs.CommandLine.Directories
import AdditiveDetail.Proofs.CommandLine.Scoring
import AdditiveDetail.Proofs.CommandLine.Reporting
import AdditiveDetail.Proofs.CommandLine.Outcome
import AdditiveDetail.Proofs.Wavelet.ClosedForm
import AdditiveDetail.Proofs.Detail.Splitting
import AdditiveDetail.Proofs.Detail.Thresholds
import AdditiveDetail.Proofs.Scoring.Directions
import AdditiveDetail.Proofs.Detail.AngleMargin
import AdditiveDetail.Proofs.Detail.CubicNorm
import AdditiveDetail.Proofs.Scoring.Accuracy
import AdditiveDetail.Proofs.Scoring.Brightness
import AdditiveDetail.Proofs.Wavelet.Reflection
import AdditiveDetail.Proofs.Detail.Margins
import AdditiveDetail.Proofs.BandStore
