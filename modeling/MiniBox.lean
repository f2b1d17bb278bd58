import MiniBox.Block.Identity
import MiniBox.Block.Blank
import MiniBox.Threads.Resume
import MiniBox.Threads.Locks
import MiniBox.Vulkan.Pools
import MiniBox.Block.Trip
import MiniBox.Block.Saves
import MiniBox.Block.CutShort
import MiniBox.Host.Watchdog
import MiniBox.Host.Savestate
import MiniBox.Host.Output
import MiniBox.Host.PlainRuns
import MiniBox.Elf.Span
import MiniBox.Host.Times
import MiniBox.Host.StackUnmap
import MiniBox.Sha256.Standard
import MiniBox.Gl.Strings
import MiniBox.Vulkan.Order
import MiniBox.Elf.Sites
import MiniBox.Vulkan.Registry
import MiniBox.Vulkan.Templates
import MiniBox.Vulkan.Mapped
import MiniBox.Block.Snapshots
