import Chip8.Instruction.Encode
import Chip8.Machine.Text
import Chip8.Main
import Chip8.Proofs.Core.Fetch
import Chip8.Proofs.Core.Fault
import Chip8.Proofs.Core.Sprite
import Chip8.Proofs.Machine.Atomicity
import Chip8.Proofs.Core.Table
import Chip8.Proofs.Core.Watch
import Chip8.Proofs.Machine.Steps
import Chip8.Proofs.Machine.Stop
import Chip8.Proofs.Screen.Blit
import Chip8.Proofs.Machine.Lifecycle
import Chip8.Proofs.Core.Calls
import Chip8.Proofs.Machine.Addresses
import Chip8.Proofs.Machine.Reload
import Chip8.Proofs.Checked.Operation
import Chip8.Proofs.Core.Alike
import Chip8.Proofs.Core.Drawing
import Chip8.Proofs.Machine.Assembly
import Chip8.Proofs.Machine.Listing
import Chip8.Proofs.Screen.Parity
import Chip8.Proofs.Machine.Peripherals
import Chip8.Proofs.Machine.Plain
import Chip8.Proofs.Terminal.Frame
import Chip8.Proofs.Terminal.Uninterrupted
import Chip8.Proofs.Terminal.Setup
import Chip8.Proofs.Terminal.Breakpoints
import Chip8.Proofs.Memory.Access
import Chip8.Proofs.Core.Block
import Chip8.Proofs.Machine.History
import Chip8.Proofs.Memory.Dump
import Chip8.Proofs.Screen.Picture
import Chip8.Proofs.Instruction.Reading
import Chip8.Proofs.Terminal.Launch
import Chip8.Proofs.Machine.Breakpoints
