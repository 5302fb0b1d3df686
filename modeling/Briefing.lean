import Briefing.Assembly
import Briefing.CommandLine.Reach
import Briefing.Expansion.Basic
import Briefing.FrontMatter.Split
import Briefing.Machine
import Briefing.Main
import Briefing.Output
import Briefing.Selectors
import Briefing.Task.Parse
import Briefing.TaskList
import Briefing.Proofs.Alike
import Briefing.Proofs.CommandLines
import Briefing.Proofs.Spans
import Briefing.Proofs.Parts
import Briefing.Proofs.InlineText
import Briefing.Proofs.Canonical
import Briefing.Proofs.Encoding
import Briefing.Proofs.Lines
import Briefing.Proofs.Grammar
import Briefing.Proofs.OpenQuotes
import Briefing.Proofs.Rendering
import Briefing.Proofs.Composition
import Briefing.Proofs.Failures
import Briefing.Proofs.FinalBreak
import Briefing.Proofs.Seam
import Briefing.Proofs.InOrder
import Briefing.Proofs.Walks
import Briefing.Proofs.Discovery
import Briefing.Proofs.Runs
import Briefing.Proofs.Lookup
import Briefing.Proofs.CallOrder
import Briefing.Proofs.Loading
import Briefing.Proofs.RuleOrder
import Briefing.Proofs.Listing
import Briefing.Proofs.NativeRules
import Briefing.Proofs.Following
import Briefing.Proofs.Changes
import Briefing.Proofs.Downloads
import Briefing.Proofs.Aliases
import Briefing.Proofs.SameDirectory
import Briefing.Proofs.Repetition
import Briefing.Proofs.Tokenization
import Briefing.Proofs.Escapes
import Briefing.Proofs.Positions
import Briefing.Proofs.UserPrompt
import Briefing.Proofs.Refusals
import Briefing.Proofs.ErrorPlaces
import Briefing.Proofs.References
import Briefing.Proofs.Delimiters
import Briefing.Proofs.Accumulation
import Briefing.Proofs.RemoteSources
import Briefing.Proofs.Directories
import Briefing.Proofs.AtomicWrites
import Briefing.Proofs.SkillRules
import Briefing.Proofs.SkillsBlock
import Briefing.Proofs.Columns
import Briefing.Proofs.Descriptions
import Briefing.Proofs.TaskTable
import Briefing.Proofs.TokenCounts
