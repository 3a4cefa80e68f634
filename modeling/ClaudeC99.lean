import ClaudeC99.Codegen.Function
import ClaudeC99.Constant.Integers
import ClaudeC99.Constant.Divisions
import ClaudeC99.Control.Labels
import ClaudeC99.Control.Jumps
import ClaudeC99.Control.Levels
import ClaudeC99.Frame.Cover
import ClaudeC99.Driver.Independence
import ClaudeC99.Front.Backtrack
import ClaudeC99.Globals.Redeclarations
import ClaudeC99.Globals.Sequences
import ClaudeC99.Globals.Prototypes
import ClaudeC99.Lib.Brackets
import ClaudeC99.Lib.CTypes
import ClaudeC99.Lib.Effects
import ClaudeC99.Lib.X86Operands
import ClaudeC99.Literals.Buffers
import ClaudeC99.Literals.Escapes
import ClaudeC99.Names.Agreement
import ClaudeC99.Optimize.Declarations
import ClaudeC99.Optimize.EffectKeeping
import ClaudeC99.Optimize.Lvalues
import ClaudeC99.Optimize.Scoping
import ClaudeC99.Peephole.Files
import ClaudeC99.Peephole.Flags
import ClaudeC99.Peephole.Machine
import ClaudeC99.Peephole.Simulation
import ClaudeC99.Preprocessor.Arguments
import ClaudeC99.Preprocessor.Numbers
import ClaudeC99.Preprocessor.Pasting
import ClaudeC99.Preprocessor.SingleLines
import ClaudeC99.Preprocessor.Stringify
import ClaudeC99.Preprocessor.Conditionals
import ClaudeC99.Preprocessor.Expand
import ClaudeC99.Preprocessor.LineNumbers
import ClaudeC99.Preprocessor.MacroTable
import ClaudeC99.Preprocessor.Rescanning
import ClaudeC99.Preprocessor.Termination
import ClaudeC99.Stack.CallTables
import ClaudeC99.Struct.Completion
import ClaudeC99.Struct.Flexible
import ClaudeC99.Initializers.Lengths
import ClaudeC99.Declarators.Parameters
import ClaudeC99.Struct.Layout
import ClaudeC99.Values.BitFields
import ClaudeC99.Control.Switches
import ClaudeC99.Values.Conversions
import ClaudeC99.Values.Conditionals
import ClaudeC99.Values.Literals
import ClaudeC99.Values.TruthTests
import ClaudeC99.Front.Restored
import ClaudeC99.Front.Recovery
import ClaudeC99.Struct.Sizes
import ClaudeC99.Front.CompoundAssignment
import ClaudeC99.Front.Consumption
import ClaudeC99.Front.ExpressionRounds
import ClaudeC99.Control.Units
