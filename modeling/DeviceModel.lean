import DeviceModel.Lib.PowerOfTwo
import DeviceModel.Lib.Fallible
import DeviceModel.MemRegistry
import DeviceModel.PciDecode
import DeviceModel.PciSetup
import DeviceModel.PciBarAlloc
import DeviceModel.PciCoherence
import DeviceModel.PciLintr
import DeviceModel.PciCapability
import DeviceModel.PciCapabilityList
import DeviceModel.PciWidths
import DeviceModel.EmulPci
import DeviceModel.FwdDevice
import DeviceModel.DmRequest
import DeviceModel.MsgdmaHandOff
import DeviceModel.MsgdmaNullLink
import DeviceModel.E82545Scan
import DeviceModel.E82545RxRing
import DeviceModel.E82545RxFrames
import DeviceModel.E82545RxEnable
import DeviceModel.E82545Assertions
import DeviceModel.E82545SegmentFields
import DeviceModel.Lib.OnesComplement
import DeviceModel.E82545Checksum
import DeviceModel.E82545SegmentFrames
import DeviceModel.E82545Frames
import DeviceModel.E82545TxRing
import DeviceModel.E82545TxSchedule
import DeviceModel.E82545Drain
import DeviceModel.E82545Interrupt
import DeviceModel.E82545IntrMask
import DeviceModel.Lib.ShiftRegister
import DeviceModel.E82545Eeprom
import DeviceModel.BlockIf
import DeviceModel.BlockQueue
import DeviceModel.Lib.Ticket
import DeviceModel.BlockOrder
import DeviceModel.Lib.ScatterGather
import DeviceModel.PciAhci
import DeviceModel.PciAhciCommand
import DeviceModel.BlockIfChs
import DeviceModel.PciAhciDevice
import DeviceModel.PciAhciTransfer
import DeviceModel.PciAhciPrdtCopy
import DeviceModel.PciAhciByteOrder
import DeviceModel.PciAhciContainment
import DeviceModel.PciAhciSteps
import DeviceModel.PciAhciInterrupt
import DeviceModel.PciAhciSlots
import DeviceModel.PciAhciCompletion
import DeviceModel.PciAhciWindow
import DeviceModel.PciAhciLocks
import DeviceModel.PciAhciReset
import DeviceModel.PciAhciMsi
import DeviceModel.Lib.Moves
import DeviceModel.PciAhciData
import DeviceModel.Lib.Replay
import DeviceModel.PciAhciStore
import DeviceModel.PciAtapi
import DeviceModel.PciAtapiTransfer
import DeviceModel.PciAtapiSteps
import DeviceModel.PciAtapiCompletion
import DeviceModel.DmLoop
import DeviceModel.DmLines
import DeviceModel.DmSimulation
import DeviceModel.PciMmio
import DeviceModel.DmWindows
