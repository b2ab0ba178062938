import SolOs.Lib.Steps
import SolOs.Lib.Ring
import SolOs.Lib.Word
import SolOs.Lib.Checked
import SolOs.Lib.Text
import SolOs.Lib.Utf8
import SolOs.Lib.Visit
import SolOs.Lib.Bytes
import SolOs.Lib.Locks
import SolOs.Lib.Chain
import SolOs.Lib.Pieces
import SolOs.Lib.Polling
import SolOs.Lib.Hierarchy
import SolOs.Lib.Orderings
import SolOs.Lib.Pic8259
import SolOs.Lib.Paging
import SolOs.Lib.PageTable
import SolOs.Lib.Uart16550
import SolOs.Lib.PciConfig
import SolOs.Keyboard.Queue
import SolOs.Keyboard.Publish
import SolOs.Keyboard.Decode
import SolOs.Keyboard.Physical
import SolOs.Keyboard.Controller
import SolOs.Memory.Bump
import SolOs.Memory.Frames
import SolOs.Memory.Mapper
import SolOs.Memory.Heap
import SolOs.Storage
import SolOs.Boot.SolData
import SolOs.Fat32.Volume
import SolOs.Fat32.Entry
import SolOs.Fat32.Tree
import SolOs.Fat32.Safe
import SolOs.Fat32.Lookup
import SolOs.Fat32.Chain
import SolOs.Fat32.Read
import SolOs.Fat32.Scan
import SolOs.Fat32.Cyclic
import SolOs.Fat32.Paths
import SolOs.Fat32.Names
import SolOs.Fat32.Stored
import SolOs.Console.Writer
import SolOs.Console.Effects
import SolOs.Console.Overlay
import SolOs.Console.Grid
import SolOs.Console.Display
import SolOs.Console.Faults
import SolOs.Console.Border
import SolOs.Console.Bounds
import SolOs.Console.Look
import SolOs.Shell.History
import SolOs.Shell.Editor
import SolOs.Shell.Refine
import SolOs.Shell.Execute
import SolOs.Shell.Input
import SolOs.Shell.Screen
import SolOs.Shell.Browse
import SolOs.Shell.Cat
import SolOs.Shell.Files
import SolOs.Shell.Session
import SolOs.Shell.Transcript
import SolOs.Shell.Words
import SolOs.Interrupts.Cpu
import SolOs.Interrupts.Wake
import SolOs.Boot.Kernel
import SolOs.Serial
import SolOs.Pci
import SolOs.System
