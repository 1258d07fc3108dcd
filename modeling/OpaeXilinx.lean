import OpaeXilinx.Base.Transition
import OpaeXilinx.Base.SearchTree
import OpaeXilinx.Base.Chunks
import OpaeXilinx.Port.DmaRegion
import OpaeXilinx.Port.DmaBalance
import OpaeXilinx.Port.Umsg
import OpaeXilinx.Port.RegionTree
import OpaeXilinx.Base.Ledger
import OpaeXilinx.Port.Msix
import OpaeXilinx.Port.Mmap
import OpaeXilinx.Port.Reset
import OpaeXilinx.Port.AckReset
import OpaeXilinx.Port.Open
import OpaeXilinx.Port.Sharing
import OpaeXilinx.Csr.PfCsr
import OpaeXilinx.Csr.WriteChannel
import OpaeXilinx.Csr.ReadChannel
import OpaeXilinx.Cosim.Bridge
import OpaeXilinx.Cosim.MmioOrder
import OpaeXilinx.Cosim.MmioMemory
import OpaeXilinx.Cosim.SlaveRead
import OpaeXilinx.Cosim.DmaRead
import OpaeXilinx.Cosim.DmaWrite
import OpaeXilinx.Icap.BitHeader
import OpaeXilinx.Icap.Download
import OpaeXilinx.Icap.HeaderSafety
import OpaeXilinx.Icap.Ioctl
import OpaeXilinx.Icap.Probe
import OpaeXilinx.Icap.Cards
import OpaeXilinx.Base.Triple
import OpaeXilinx.Enum.FeatureList
import OpaeXilinx.Enum.BarAccess
import OpaeXilinx.Enum.Slots
import OpaeXilinx.Enum.Owners
import OpaeXilinx.Enum.DeviceIds
import OpaeXilinx.Enum.IdBalance
import OpaeXilinx.Flash.Mcs
import OpaeXilinx.Flash.Records
import OpaeXilinx.Base.History
import OpaeXilinx.Flash.Chip
import OpaeXilinx.Flash.Xspi
import OpaeXilinx.Flash.Command
import OpaeXilinx.Flash.Session
import OpaeXilinx.Flash.Guard
import OpaeXilinx.Flash.Effect
import OpaeXilinx.Flash.Passes
import OpaeXilinx.Flash.RunCalls
import OpaeXilinx.Flash.Coverage
import OpaeXilinx.Flash.WellFormed
import OpaeXilinx.Flash.Image
import OpaeXilinx.Base.LinkedTree
import OpaeXilinx.Port.TearDown
import OpaeXilinx.Base.Ghost
import OpaeXilinx.Enum.Traced
import OpaeXilinx.Enum.WalkOrder
import OpaeXilinx.Enum.UafuSize
import OpaeXilinx.Port.RegionTable
import OpaeXilinx.Icap.Batches
import OpaeXilinx.Icap.UserPath
import OpaeXilinx.Cosim.Lockstep
import OpaeXilinx.Base.Loop
import OpaeXilinx.Flash.Qspi
import OpaeXilinx.Flash.FinalTransfer
import OpaeXilinx.Flash.TransferLoop
import OpaeXilinx.Enum.FeatureInit
import OpaeXilinx.Pcie.Tlp
import OpaeXilinx.Pcie.Engines
import OpaeXilinx.Pcie.Bridge
import OpaeXilinx.Pcie.Fields
import OpaeXilinx.Pcie.Accept
import OpaeXilinx.Pcie.Rounds
import OpaeXilinx.Pcie.Steps
import OpaeXilinx.Pcie.Service
import OpaeXilinx.Pcie.Memory
import OpaeXilinx.Pcie.Progress
import OpaeXilinx.Fme.PartialReconfig
import OpaeXilinx.Fme.PrEvents
import OpaeXilinx.Fme.PrImage
import OpaeXilinx.Fme.PrRequest
import OpaeXilinx.Fme.PrHandshake
import OpaeXilinx.Fme.PrFlow
import OpaeXilinx.Base.NorMemory
import OpaeXilinx.Nor.Asmip2
import OpaeXilinx.Nor.SpiNor
import OpaeXilinx.Nor.Chip
import OpaeXilinx.Nor.Transfer
import OpaeXilinx.Nor.Commands
import OpaeXilinx.Nor.Storage
import OpaeXilinx.Nor.Keeps
import OpaeXilinx.Nor.Mtd
import OpaeXilinx.Nor.Protect
import OpaeXilinx.Nor.Locking
import OpaeXilinx.Nor.Runs
import OpaeXilinx.Nor.Prompt
import OpaeXilinx.Nor.Update
import OpaeXilinx.Nor.Protocol
import OpaeXilinx.Bmc.Prompt
