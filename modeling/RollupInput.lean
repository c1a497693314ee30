import RollupInput.Text
import RollupInput.Text.Hex
import RollupInput.Text.Utf8
import RollupInput.Keccak
import RollupInput.LazyTable
import RollupInput.Json.Binary64
import RollupInput.Json.Value
import RollupInput.Json.Writer
import RollupInput.Json.Reader
import RollupInput.Json.Shape
import RollupInput.DecodeFault
import RollupInput.Abi.Type
import RollupInput.Abi.TypeText
import RollupInput.Abi.Value
import RollupInput.Abi.Room
import RollupInput.Abi.Misfit
import RollupInput.Abi.Weighed
import RollupInput.Abi.Reader
import RollupInput.Abi.Param
import RollupInput.Declaration.Brackets
import RollupInput.Declaration.Fault
import RollupInput.Declaration.Struct
import RollupInput.Declaration.Params
import RollupInput.Contract.Interface
import RollupInput.Contract.Json
import RollupInput.Contract.Call
import RollupInput.Predicate
import RollupInput.Specification
import RollupInput.Specification.Json
import RollupInput.Matching
import RollupInput.Portals
import RollupInput.Payload
import RollupInput.NamedValues
import RollupInput.Decoding
import RollupInput.Decoding.Run
import RollupInput.Calendar
import RollupInput.Report
import RollupInput.FilePath
import RollupInput.FileTree
import RollupInput.Catalog
import RollupInput.Toml.Value
import RollupInput.Toml.Reader
import RollupInput.Config
import RollupInput.CommandLine.Arguments
import RollupInput.CommandLine.Session
import RollupInput.Main
import RollupInput.Proofs.Abi.Encoding
import RollupInput.Proofs.Text.Utf8
import RollupInput.Proofs.Abi.EncodingSize
import RollupInput.Proofs.Abi.Placement
import RollupInput.Proofs.Abi.Label
import RollupInput.Proofs.Abi.Reading
import RollupInput.Proofs.Abi.RoundTrip
import RollupInput.Proofs.Decoding.Folding
import RollupInput.Proofs.Decoding.Target
import RollupInput.Proofs.Decoding.Distinct
import RollupInput.Proofs.Decoding.Ending
import RollupInput.Proofs.Declaration.Keyword
import RollupInput.Proofs.Declaration.Nesting
import RollupInput.Proofs.Declaration.Suffixes
import RollupInput.Proofs.Declaration.Reading
import RollupInput.Proofs.Declaration.Elementary
import RollupInput.Proofs.Declaration.Acceptance
import RollupInput.Proofs.Portals.Cutting
import RollupInput.Proofs.Portals.Inversion
import RollupInput.Proofs.Json.Scalars
import RollupInput.Proofs.Json.Sorted
import RollupInput.Proofs.Json.Reading
import RollupInput.Proofs.Json.Records
import RollupInput.Proofs.Contract.Order
import RollupInput.Proofs.Contract.Written
import RollupInput.Proofs.Specification.Written
import RollupInput.Proofs.Catalog.RoundTrip
import RollupInput.Proofs.Abi.Agreement
import RollupInput.Proofs.Contract.Declared
import RollupInput.Proofs.Contract.Calldata
import RollupInput.Proofs.Declaration.Unknown
import RollupInput.Proofs.Contract.Blamed
import RollupInput.Proofs.Abi.Expressible
import RollupInput.Proofs.Abi.Success
import RollupInput.Proofs.Declaration.Inversion
import RollupInput.Proofs.Decoding.Soundness
import RollupInput.Proofs.Decoding.Keys
import RollupInput.Proofs.Decoding.Reference
import RollupInput.Proofs.Abi.Static
import RollupInput.Proofs.Declaration.Alone
import RollupInput.Proofs.Decoding.Ranges
import RollupInput.Proofs.Abi.HeadSize
import RollupInput.Proofs.Abi.Appended
import RollupInput.Proofs.Contract.Appended
import RollupInput.Proofs.Abi.Drawn
import RollupInput.Proofs.Abi.TooShort
import RollupInput.Proofs.Abi.InPlace
import RollupInput.Proofs.Abi.SizeCheck
import RollupInput.Proofs.Declaration.Stack
import RollupInput.Proofs.Declaration.Cycles
import RollupInput.Proofs.Declaration.Surfacing
import RollupInput.Proofs.Declaration.Layout
import RollupInput.Proofs.Declaration.Framed
import RollupInput.Proofs.Declaration.Inlining
import RollupInput.Proofs.Declaration.Regrouping
import RollupInput.Proofs.Matching.Choice
import RollupInput.Proofs.Matching.Alike
import RollupInput.Proofs.Matching.LetterCase
import RollupInput.Proofs.Matching.Alias
import RollupInput.Proofs.Declaration.Nameable
import RollupInput.Proofs.Declaration.CanonicalName
import RollupInput.Proofs.Decoding.Cutting
import RollupInput.Proofs.Decoding.Optional
import RollupInput.Proofs.Decoding.FirstFault
import RollupInput.Proofs.Decoding.Tiling
import RollupInput.Proofs.Decoding.Uncovered
import RollupInput.Proofs.Keccak
import RollupInput.Proofs.Contract.Selectors
import RollupInput.Proofs.Catalog.Reading
import RollupInput.Proofs.Catalog.Merging
import RollupInput.Proofs.Catalog.Steps
import RollupInput.Proofs.FileTree
import RollupInput.Proofs.Catalog.Visiting
import RollupInput.Proofs.Catalog.Scanning
import RollupInput.Proofs.Text.Hex
import RollupInput.Proofs.Abi.Checksum
import RollupInput.Proofs.Json.Compact
import RollupInput.Proofs.Abi.Rendering
import RollupInput.Proofs.Report.Records
import RollupInput.Proofs.Report.ReadBack
import RollupInput.Proofs.Payload.Digits
import RollupInput.Proofs.Declaration.Balance
import RollupInput.Proofs.NamedValues.Insertions
