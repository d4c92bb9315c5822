import FluidClamp.Main
import FluidClamp.Proofs.ClassName.Place
import FluidClamp.Proofs.Markup.Candidates
import FluidClamp.Proofs.RuleSet.Listing
import FluidClamp.Proofs.Number.Places
import FluidClamp.Proofs.Span.Ideal
import FluidClamp.Proofs.Length.Language
import FluidClamp.Proofs.Length.Reading
import FluidClamp.Proofs.Number.Order
import FluidClamp.Proofs.Screens.Entries
import FluidClamp.Proofs.Text.Words
import FluidClamp.Proofs.Text.Taken
import FluidClamp.Proofs.Shorthand.Faults
import FluidClamp.Proofs.Shorthand.Outcome
import FluidClamp.Proofs.Markup.Join
import FluidClamp.Proofs.RuleSet.StyleSheet
import FluidClamp.Proofs.Generation.Agreement
import FluidClamp.Proofs.ClassName.Splits
import FluidClamp.Proofs.Markup.Tokens
import FluidClamp.Proofs.Number.Nearest
import FluidClamp.Proofs.Number.Range
import FluidClamp.Proofs.Number.Characters
import FluidClamp.Proofs.Span.Finite
import FluidClamp.Proofs.Text.Ascii
import FluidClamp.Proofs.Text.Cut
import FluidClamp.Proofs.Css.Reading
import FluidClamp.Proofs.Utility.Templates
import FluidClamp.Proofs.RuleSet.Origin
import FluidClamp.Proofs.Markup.StyleSheet
import FluidClamp.Proofs.Markup.Quiet
import FluidClamp.Proofs.Markup.Regeneration
import FluidClamp.Proofs.ClassName.Grammar
import FluidClamp.Proofs.ClassName.Routes
import FluidClamp.Proofs.Files.Steps
import FluidClamp.Proofs.Generation.Frame
import FluidClamp.Proofs.Css.Escaping
import FluidClamp.Proofs.Files.Interruption
import FluidClamp.Proofs.Generation.Remains
import FluidClamp.Proofs.CommandLine.Calculation
import FluidClamp.Proofs.Number.Closest
import FluidClamp.Proofs.Number.Decimals
import FluidClamp.Proofs.Number.ToPlaces
import FluidClamp.Proofs.Number.Signs
import FluidClamp.Proofs.Span.Swap
import FluidClamp.Proofs.Span.RootSize
import FluidClamp.Proofs.Number.Shortest
import FluidClamp.Proofs.Number.Written
import FluidClamp.Proofs.Files.Collecting
import FluidClamp.Proofs.Files.Names
import FluidClamp.Proofs.Length.RoundTrip
import FluidClamp.Proofs.Generation.Atomic
