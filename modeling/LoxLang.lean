import LoxLang.Main
import LoxLang.Syntax.Prefix
import LoxLang.Syntax.Outline
import LoxLang.Proofs.Syntax.Nodes
import LoxLang.Proofs.Grammar.Uniform
import LoxLang.Proofs.Grammar.Progress
import LoxLang.Proofs.Grammar.Numbering
import LoxLang.Proofs.Grammar.Regularity
import LoxLang.Proofs.Scoping.Discipline
import LoxLang.Proofs.Scoping.Nesting
import LoxLang.Proofs.Scoping.Acceptance
import LoxLang.Proofs.Evaluation.Growth
import LoxLang.Proofs.Evaluation.Frames
import LoxLang.Proofs.Evaluation.Operators
import LoxLang.Proofs.Evaluation.Soundness
import LoxLang.Proofs.Evaluation.Preservation
import LoxLang.Proofs.Evaluation.Bounds
import LoxLang.Proofs.Evaluation.Coverage
import LoxLang.Proofs.Evaluation.References
import LoxLang.Proofs.Sessions.Sources
import LoxLang.Proofs.Sessions.Histories
import LoxLang.Proofs.Sessions.Resolution
import LoxLang.Proofs.Lexical.Semantics
import LoxLang.Proofs.Lexical.Worlds
import LoxLang.Proofs.Lexical.Simulation
import LoxLang.Proofs.Lexical.Steps
import LoxLang.Proofs.Lexical.Regions
import LoxLang.Proofs.Lexical.Refinement
import LoxLang.Proofs.Lexical.Sessions
import LoxLang.Proofs.Grammar.Precedence
import LoxLang.Proofs.Grammar.Taking
import LoxLang.Proofs.Grammar.Completeness
import LoxLang.Proofs.Grammar.Accepting
import LoxLang.Proofs.Grammar.Expressions
import LoxLang.Proofs.Grammar.Derivations
import LoxLang.Proofs.Grammar.Derived
import LoxLang.Proofs.Grammar.Deriving
import LoxLang.Proofs.Grammar.Programs
import LoxLang.Proofs.Evaluation.Returns
import LoxLang.Proofs.Evaluation.TwinMoments
import LoxLang.Proofs.Grammar.Shifting
import LoxLang.Proofs.Scanning.Tiling
import LoxLang.Proofs.Sessions.Atomicity
import LoxLang.Proofs.Sessions.Faults
import LoxLang.Proofs.Sessions.Incremental
import LoxLang.Proofs.Sessions.Restoration
import LoxLang.Proofs.Evaluation.Values
import LoxLang.Proofs.Grammar.Seams
import LoxLang.Proofs.Grammar.SeamExpressions
import LoxLang.Proofs.Grammar.SeamStatements
import LoxLang.Proofs.Grammar.SeamPrograms
import LoxLang.Proofs.Grammar.Appending
import LoxLang.Proofs.Scanning.Lexemes
import LoxLang.Proofs.Scanning.Respelling
import LoxLang.Proofs.Scoping.Admission
import LoxLang.Proofs.Syntax.Variants
import LoxLang.Proofs.Syntax.Places
import LoxLang.Proofs.Scoping.Renaming
import LoxLang.Proofs.Syntax.Respelling
import LoxLang.Proofs.Grammar.Respelling
import LoxLang.Proofs.Lexical.Companions
import LoxLang.Proofs.Lexical.Together
import LoxLang.Proofs.Lexical.Variation
import LoxLang.Proofs.Scoping.References
import LoxLang.Proofs.Sessions.Variants
import LoxLang.Proofs.Sessions.FurtherScopes
import LoxLang.Proofs.Sessions.Renaming
import LoxLang.Proofs.Sessions.Manners
import LoxLang.Proofs.Evaluation.Effects
import LoxLang.Proofs.Evaluation.Globals
import LoxLang.Proofs.Sessions.Globals
import LoxLang.Proofs.Syntax.Parts
import LoxLang.Proofs.Evaluation.Laws
import LoxLang.Proofs.Evaluation.Provenance
import LoxLang.Proofs.Evaluation.Heaps
import LoxLang.Proofs.Sessions.Origins
import LoxLang.Proofs.Scanning.Places
import LoxLang.Proofs.Scanning.Positions
import LoxLang.Proofs.Grammar.Reports
import LoxLang.Proofs.Scoping.Reports
import LoxLang.Proofs.Grammar.Stretches
import LoxLang.Proofs.Sessions.Diagnostics
import LoxLang.Proofs.Grammar.Recursion
import LoxLang.Proofs.Grammar.Stages
import LoxLang.Proofs.Grammar.Advancing
import LoxLang.Proofs.Grammar.Attempts
import LoxLang.Proofs.Grammar.Missing
import LoxLang.Proofs.Grammar.Recovery
import LoxLang.Proofs.Grammar.Semicolons
import LoxLang.Proofs.Syntax.Occurrences
import LoxLang.Proofs.Scoping.Binding
import LoxLang.Proofs.Scoping.Violations
import LoxLang.Proofs.Evaluation.Returning
import LoxLang.Proofs.Sessions.Returning
import LoxLang.Proofs.Scoping.Loops
import LoxLang.Proofs.Lexical.Bounds
import LoxLang.Proofs.Lexical.Loops
import LoxLang.Proofs.Lexical.Moments
import LoxLang.Proofs.Sessions.Loops
import LoxLang.Proofs.Stores.Chains
import LoxLang.Proofs.Stores.Access
import LoxLang.Proofs.Stores.Roots
import LoxLang.Proofs.Syntax.Prefix
import LoxLang.Proofs.Grammar.Limits
import LoxLang.Proofs.Files.Listing
import LoxLang.Proofs.Sessions.Loading
import LoxLang.Proofs.Evaluation.Uniform
import LoxLang.Proofs.Evaluation.Printing
import LoxLang.Proofs.Sessions.Transcripts
import LoxLang.Proofs.Scoping.Uniform
import LoxLang.Proofs.Scoping.Balance
import LoxLang.Proofs.Sessions.Heaps
