import TriggerCompiler.Console.Answer
import TriggerCompiler.Proofs.Frames
import TriggerCompiler.Proofs.Binding
import TriggerCompiler.Proofs.Statements
import TriggerCompiler.Proofs.Opening
import TriggerCompiler.Proofs.Counting
import TriggerCompiler.Proofs.Closing
import TriggerCompiler.Proofs.Actions
import TriggerCompiler.Proofs.Lowering
import TriggerCompiler.Proofs.Grammar
import TriggerCompiler.Proofs.Registry
import TriggerCompiler.Proofs.Groups
import TriggerCompiler.Proofs.MergedCode
import TriggerCompiler.Proofs.Phrases
import TriggerCompiler.Proofs.Spelling
import TriggerCompiler.Proofs.MergedPhrases
import TriggerCompiler.Proofs.Discipline
import TriggerCompiler.Proofs.Orderly
import TriggerCompiler.Proofs.Finished
import TriggerCompiler.Proofs.Stack
import TriggerCompiler.Proofs.Linked
import TriggerCompiler.Proofs.Temporaries
import TriggerCompiler.Proofs.Execution
import TriggerCompiler.Proofs.Runs
import TriggerCompiler.Proofs.GrownRegistry
import TriggerCompiler.Proofs.Operands
import TriggerCompiler.Proofs.Stretches
import TriggerCompiler.Proofs.ChangeDetection
import TriggerCompiler.Proofs.ExactLinking
import TriggerCompiler.Proofs.DirectJumps
import TriggerCompiler.Proofs.CallGraph
import TriggerCompiler.Proofs.CallsReturn
import TriggerCompiler.Proofs.Serialization
import TriggerCompiler.Proofs.Bodies
import TriggerCompiler.Proofs.EventMethods
import TriggerCompiler.Proofs.WrapperRuns
import TriggerCompiler.Proofs.EventRuns
import TriggerCompiler.Proofs.Dispatch
import TriggerCompiler.Proofs.ClosedGates
import TriggerCompiler.Proofs.EventNames
import TriggerCompiler.Proofs.BlockCode
import TriggerCompiler.Proofs.CodeTargets
import TriggerCompiler.Proofs.ChainExits
import TriggerCompiler.Proofs.BoundActions
import TriggerCompiler.Proofs.MergedNames
import TriggerCompiler.Proofs.LexicalScope
import TriggerCompiler.Proofs.GeneratedNames
