import CallMigration.Main
import CallMigration.Proofs.Calls
import CallMigration.Proofs.Balanced
import CallMigration.Proofs.Shallow
import CallMigration.Proofs.Repetition
import CallMigration.Proofs.Processing
import CallMigration.Proofs.Names
import CallMigration.Proofs.Following
import CallMigration.Proofs.Trees
import CallMigration.Proofs.Selection
import CallMigration.Proofs.Runs
import CallMigration.Proofs.Reports
import CallMigration.Proofs.Policies
import CallMigration.Proofs.Replacements
import CallMigration.Proofs.Stability
import CallMigration.Proofs.Encoding
import CallMigration.Proofs.Announcements
import CallMigration.Proofs.Confinement
import CallMigration.Proofs.Validity
import CallMigration.Proofs.Visits
import CallMigration.Proofs.Rerun
import CallMigration.Proofs.Prediction
import CallMigration.Proofs.Reordering
import CallMigration.Proofs.Confluence
import CallMigration.Proofs.Sessions
import CallMigration.Proofs.Leftmost
import CallMigration.Proofs.Convergence
import CallMigration.Proofs.Lines
import CallMigration.Proofs.ExitCodes
import CallMigration.Proofs.Counting
import CallMigration.Proofs.Accounts
import CallMigration.Proofs.Grammar
import CallMigration.Proofs.Skipping
import CallMigration.Proofs.Expecting
import CallMigration.Proofs.ConfigTexts
import CallMigration.Proofs.Meanings
import CallMigration.Proofs.Decoding
import CallMigration.Proofs.DecodedTexts
import CallMigration.Proofs.Envelopes
import CallMigration.Proofs.Extensions
import CallMigration.Proofs.Roots
import CallMigration.Proofs.Slices
import CallMigration.Proofs.Patterns
import CallMigration.Proofs.Searches
