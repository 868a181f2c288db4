import PixelShader.Arithmetic
import PixelShader.Backend
import PixelShader.Bindings
import PixelShader.Bytecode.Assemble
import PixelShader.CommandLine.Disk
import PixelShader.CommandLine.Run
import PixelShader.KernelCache
import PixelShader.Main
import PixelShader.Proofs.Agreement
import PixelShader.Proofs.Atomicity
import PixelShader.Proofs.Bindings
import PixelShader.Proofs.Bytecode.Assemble
import PixelShader.Proofs.Bytecode.Concatenation
import PixelShader.Proofs.Bytecode.Culprit
import PixelShader.Proofs.Bytecode.Cutting
import PixelShader.Proofs.Bytecode.Decode
import PixelShader.Proofs.Bytecode.NumberField
import PixelShader.Proofs.CommandLine.Constant
import PixelShader.Proofs.CommandLine.Run
import PixelShader.Proofs.Coordinates
import PixelShader.Proofs.Copying
import PixelShader.Proofs.Decimal
import PixelShader.Proofs.Disassembly
import PixelShader.Proofs.Drift
import PixelShader.Proofs.Footprint
import PixelShader.Proofs.Kernel.Bounds
import PixelShader.Proofs.Kernel.Definitions
import PixelShader.Proofs.Kernel.Externals
import PixelShader.Proofs.Kernel.Occupancy
import PixelShader.Proofs.KernelCache
import PixelShader.Proofs.Lane.Arithmetic
import PixelShader.Proofs.Lane.Nearest
import PixelShader.Proofs.Lane.Text
import PixelShader.Proofs.PixelMap
import PixelShader.Proofs.RegisterLimit
import PixelShader.Proofs.Respelling
import PixelShader.Proofs.Text.Number
import PixelShader.Proofs.Texture.Color
import PixelShader.Proofs.Texture.Sampler
