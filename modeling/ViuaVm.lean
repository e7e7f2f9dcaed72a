import ViuaVm.Arch.Ops
import ViuaVm.Machine.Core
import ViuaVm.Machine.Run
import ViuaVm.Machine.Aa
import ViuaVm.Machine.Interpret
import ViuaVm.Asm.LoadImmediate
import ViuaVm.Asm.Sample
import ViuaVm.Asm.Stage
import ViuaVm.Asm.Labels
import ViuaVm.Asm.Bytecode
import ViuaVm.Asm.Reloc
import ViuaVm.Asm.Main
import ViuaVm.Elf.Symbols
import ViuaVm.Elf.Loader
import ViuaVm.Asm.Names
import ViuaVm.Asm.Object
import ViuaVm.Elf.LittleEndian
import ViuaVm.Elf.Structs
import ViuaVm.Elf.Emit
import ViuaVm.Elf.Layout
import ViuaVm.Elf.Load
import ViuaVm.Asm.Cli
import ViuaVm.Legacy.CallStack
import ViuaVm.Legacy.StackDiscipline
import ViuaVm.Legacy.Inheritance
