import CubeScript.Dialect.ConfigReader
import CubeScript.Reading.Statement
import CubeScript.Script.Metrics
import CubeScript.Script.Record
import CubeScript.Script.Run
import CubeScript.Text.Tokenizer
import CubeScript.Text.Narrow
import CubeScript.Proofs.Script.Meaning
import CubeScript.Proofs.Script.Resolving
import CubeScript.Proofs.Script.Iterating
import CubeScript.Proofs.Script.Undoing
import CubeScript.Proofs.Cube.Places
import CubeScript.Proofs.Cube.Seats
import CubeScript.Proofs.Cube.Turning
import CubeScript.Proofs.Cube.Cycling
import CubeScript.Proofs.Script.Restoring
import CubeScript.Proofs.Script.History
import CubeScript.Proofs.Script.Fitting
import CubeScript.Proofs.Script.Trees
import CubeScript.Proofs.Reading.Lifting
import CubeScript.Proofs.Reading.Limits
import CubeScript.Proofs.Reading.Outcomes
import CubeScript.Proofs.Reading.Extents
import CubeScript.Proofs.Text.Keywords
import CubeScript.Proofs.Text.Skipping
import CubeScript.Proofs.Text.Splitting
import CubeScript.Proofs.Text.Handing
import CubeScript.Proofs.Text.Replaying
import CubeScript.Proofs.Text.Bounding
import CubeScript.Proofs.Dialect.Standard
import CubeScript.Proofs.Dialect.Building
import CubeScript.Proofs.Reading.Grammar
import CubeScript.Proofs.Reading.Marks
import CubeScript.Proofs.Reading.Cycles
import CubeScript.Proofs.Reading.Soundness
import CubeScript.Proofs.Reading.Completeness
import CubeScript.Proofs.Reading.Acceptance
import CubeScript.Proofs.Dialect.Spelling
import CubeScript.Proofs.Reading.Composition
import CubeScript.Proofs.Reading.Making
import CubeScript.Proofs.Reading.Running
import CubeScript.Proofs.Cube.Motions
import CubeScript.Proofs.Script.Moving
import CubeScript.Proofs.Cube.Stickers
import CubeScript.Proofs.Cube.Symmetries
import CubeScript.Proofs.Script.Mirroring
import CubeScript.Proofs.Cube.Twists
import CubeScript.Proofs.Script.Conserving
import CubeScript.Reading.InPlace
import CubeScript.Proofs.Script.Placing
import CubeScript.Proofs.Reading.Acting
import CubeScript.Proofs.Reading.Backtracking
import CubeScript.Proofs.Reading.Pointing
import CubeScript.Proofs.Reading.Following
import CubeScript.Proofs.Reading.Agreement
import CubeScript.Proofs.Reading.Faithful
import CubeScript.Proofs.Cube.Adding
import CubeScript.Proofs.Script.Outlines
import CubeScript.Proofs.Reading.Stopping
import CubeScript.Proofs.Reading.Tracking
import CubeScript.Proofs.Reading.Drafting
import CubeScript.Proofs.Reading.Accompanying
import CubeScript.Proofs.Reading.Spacing
import CubeScript.Proofs.Text.Replacing
import CubeScript.Proofs.Dialect.Shorthands
import CubeScript.Proofs.Reading.Enclosing
import CubeScript.Proofs.Reading.SpellingOut
import CubeScript.Proofs.Reading.Watching
import CubeScript.Proofs.Cube.Carrying
import CubeScript.Proofs.Cube.Bytes
import CubeScript.Proofs.Cube.Orbits
import CubeScript.Proofs.Script.Dissecting
import CubeScript.Proofs.Script.Costs
import CubeScript.Proofs.Cube.Assigning
import CubeScript.Proofs.Cube.Repeating
import CubeScript.Proofs.Cube.Parity
import CubeScript.Proofs.Script.Totals
import CubeScript.Proofs.Cube.Locating
import CubeScript.Proofs.Dialect.Letters
import CubeScript.Proofs.Reading.Writing
import CubeScript.Proofs.Reading.Lone
import CubeScript.Proofs.Reading.Printing
import CubeScript.Proofs.Reading.Capitals
import CubeScript.Proofs.Text.Lines
import CubeScript.Proofs.Reading.Narrowing
import CubeScript.Proofs.Dialect.Names
import CubeScript.Proofs.Reading.Unspaced
import CubeScript.Proofs.Reading.Nesting
import CubeScript.Proofs.Dialect.Configuring
import CubeScript.Proofs.Dialect.Coherence
import CubeScript.Proofs.Script.Refusing
import CubeScript.Proofs.Text.Trailing
import CubeScript.Proofs.Reading.Onward
import CubeScript.Proofs.Reading.Delaying
import CubeScript.Proofs.Reading.Trailing
import CubeScript.Text.TrieArena
import CubeScript.Proofs.Script.Stacking
import CubeScript.Proofs.Text.Growing
import CubeScript.Proofs.Cube.Keeping
import CubeScript.Proofs.Script.Recording
