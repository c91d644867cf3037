import RequestRouting.Config.File
import RequestRouting.Proofs.Config.Acceptance
import RequestRouting.Proofs.Config.Build
import RequestRouting.Proofs.Config.Decoding
import RequestRouting.Proofs.Config.Forms
import RequestRouting.Proofs.Config.UnusedTypes
import RequestRouting.Proofs.Config.Written
import RequestRouting.Proofs.Path
import RequestRouting.Proofs.Path.Decoding
import RequestRouting.Proofs.Path.Normalization
import RequestRouting.Proofs.Path.Repetition
import RequestRouting.Proofs.Pattern.Acceptance
import RequestRouting.Proofs.Pattern.Behind
import RequestRouting.Proofs.Pattern.Division
import RequestRouting.Proofs.Pattern.Escaping
import RequestRouting.Proofs.Pattern.Joining
import RequestRouting.Proofs.Pattern.Limits
import RequestRouting.Proofs.Pattern.Names
import RequestRouting.Proofs.Pattern.Parameters
import RequestRouting.Proofs.Pattern.Plain
import RequestRouting.Proofs.Pattern.PlainCompile
import RequestRouting.Proofs.Pattern.PlainMatch
import RequestRouting.Proofs.Pattern.PlainReading
import RequestRouting.Proofs.Pattern.Unclosed
import RequestRouting.Proofs.Pattern.WholeMatch
import RequestRouting.Proofs.Regex.ExprListing
import RequestRouting.Proofs.Regex.Following
import RequestRouting.Proofs.Regex.Groups
import RequestRouting.Proofs.Regex.Listing
import RequestRouting.Proofs.Regex.LoopListing
import RequestRouting.Proofs.Regex.Move
import RequestRouting.Proofs.Regex.Opening
import RequestRouting.Proofs.Regex.Reading
import RequestRouting.Proofs.Regex.RepListing
import RequestRouting.Proofs.Regex.Search
import RequestRouting.Proofs.Regex.Shift
import RequestRouting.Proofs.Regex.Spelling
import RequestRouting.Proofs.Regex.Walk
import RequestRouting.Proofs.Results
import RequestRouting.Proofs.Router.Serving
import RequestRouting.Proofs.Router.Steps
import RequestRouting.Proofs.Router.TableRuns
import RequestRouting.Proofs.SortedPairs
import RequestRouting.Proofs.Table.BasePath
import RequestRouting.Proofs.Table.Conservation
import RequestRouting.Proofs.Table.Flattening
import RequestRouting.Proofs.Table.History
import RequestRouting.Proofs.Table.Link
import RequestRouting.Proofs.Table.Literal
import RequestRouting.Proofs.Table.Series
import RequestRouting.Proofs.Table.Sharing
import RequestRouting.Proofs.Text.Lossy
import RequestRouting.Proofs.Text.Percent
import RequestRouting.Proofs.Text.Utf8
import RequestRouting.Proofs.Toml.Blocks
import RequestRouting.Proofs.Toml.Keys
import RequestRouting.Proofs.Toml.Layout
import RequestRouting.Proofs.Toml.Spelling
import RequestRouting.Proofs.Toml.Writing
import RequestRouting.Router.Command
import RequestRouting.Table.Command
