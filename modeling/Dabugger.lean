import Dabugger.Leb
import Dabugger.Reader.Accounting
import Dabugger.Dwarf.HeaderRoundTrip
import Dabugger.Dwarf.Program
import Dabugger.Dwarf.Termination
import Dabugger.LineProgram.Encoding
import Dabugger.Dwarf.Section
import Dabugger.Dwarf.Widths
import Dabugger.Dwarf.Containment
import Dabugger.Dwarf.Framing
import Dabugger.Dwarf.UnknownOpcodes
import Dabugger.Dwarf.Sequences
import Dabugger.Dwarf.Ascending
import Dabugger.Dwarf.Arithmetic
import Dabugger.Dwarf.SignedArithmetic
import Dabugger.Dwarf.FailedReads
import Dabugger.Dwarf.Residue
import Dabugger.Dwarf.Copies
import Dabugger.Elf.Accesses
import Dabugger.Debug.Session
import Dabugger.Debug.Store
import Dabugger.Debug.StoreRuns
import Dabugger.Debug.SourceLines
import Dabugger.Debug.LineOrder
import Dabugger.Debug.Events
import Dabugger.Debug.Toggles
import Dabugger.Debug.Firing
import Dabugger.Debug.Traps
import Dabugger.Debug.Registers
import Dabugger.Debug.Lifetime
import Dabugger.Debug.Requests
import Dabugger.Debug.Buffers
import Dabugger.Debug.Assembly
import Dabugger.Debug.TextChecks
import Dabugger.Debug.FilePaths
import Dabugger.Debug.Maps
import Dabugger.Tui.FunctionKeys
import Dabugger.Tui.Scroll
import Dabugger.Tui.OutputPane
import Dabugger.Main.Instructions
import Dabugger.Main.Safety
import Dabugger.Main.KeyBuffer
import Dabugger.Debug.Transparency
import Dabugger.Main.Faults
import Dabugger.Main.Polls
import Dabugger.Main.Markers
import Dabugger.Main.Loading
