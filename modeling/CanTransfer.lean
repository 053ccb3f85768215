import CanTransfer.Bus.Basic
import CanTransfer.Bus.Relay
import CanTransfer.CanFrame
import CanTransfer.Chunk
import CanTransfer.Crc
import CanTransfer.DataLength
import CanTransfer.Directory
import CanTransfer.Fault
import CanTransfer.Frame
import CanTransfer.Link.Basic
import CanTransfer.Link.Disturbance
import CanTransfer.Proofs.Fifo
import CanTransfer.Proofs.Gathering
import CanTransfer.Proofs.History
import CanTransfer.Proofs.Isolation
import CanTransfer.Proofs.Layout
import CanTransfer.Proofs.Misfit
import CanTransfer.Proofs.Noise
import CanTransfer.Proofs.Padding
import CanTransfer.Proofs.Pieces
import CanTransfer.Proofs.RoundTrip
import CanTransfer.Proofs.Runs
import CanTransfer.Proofs.Search
import CanTransfer.Proofs.Sending
import CanTransfer.Proofs.Wire
import CanTransfer.Reception.Basic
import CanTransfer.Reception.Statistics
import CanTransfer.Reception.Table
import CanTransfer.Settings
import CanTransfer.Tail
import CanTransfer.Transfer.Basic
import CanTransfer.Transfer.Plan
import CanTransfer.Transfer.Stream
import CanTransfer.Transport.Basic
import CanTransfer.Transport.Run
import CanTransfer.Version
import CanTransfer.Proofs.Loss
import CanTransfer.Proofs.Register
import CanTransfer.Proofs.BitErrors
import CanTransfer.Proofs.Detection
import CanTransfer.Proofs.Burst
import CanTransfer.Proofs.Parity
import CanTransfer.Proofs.Period
import CanTransfer.Proofs.Conservation
import CanTransfer.Proofs.Counting
import CanTransfer.Proofs.Reference
import CanTransfer.Proofs.Feeding
import CanTransfer.Proofs.Disabling
import CanTransfer.Proofs.Codec
import CanTransfer.Proofs.LastFrame
import CanTransfer.Proofs.Faults
import CanTransfer.Proofs.Receiving
import CanTransfer.Proofs.Cutting
import CanTransfer.Proofs.Lending
import CanTransfer.Proofs.Restart
import CanTransfer.Proofs.Remainder
import CanTransfer.Proofs.Residue
import CanTransfer.Proofs.Disturbances
import CanTransfer.Proofs.Links
