import Chip8.Instruction.Encode
import Chip8.Machine.Run
import Chip8.Machine.Session
import Chip8.Proofs.Audit
import Chip8.Proofs.Cadence
import Chip8.Proofs.Drawing
import Chip8.Proofs.Faults
import Chip8.Proofs.Flag
import Chip8.Proofs.Glyph
import Chip8.Proofs.Halt
import Chip8.Proofs.Keys
import Chip8.Proofs.Latch
import Chip8.Proofs.Listing
import Chip8.Proofs.Pace
import Chip8.Proofs.Picture
import Chip8.Proofs.Safety
import Chip8.Proofs.Table
import Chip8.Proofs.Tiling
import Chip8.Proofs.Tone
import Chip8.Proofs.Waiting
import Chip8.Proofs.Writers
