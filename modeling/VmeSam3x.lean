import VmeSam3x.Lib.Prog
import VmeSam3x.Lib.Machine
import VmeSam3x.Lib.Tasks
import VmeSam3x.Lib.Bytes
import VmeSam3x.Lib.Memory
import VmeSam3x.Lib.Framing
import VmeSam3x.Fpga.Twi
import VmeSam3x.Fpga.Device
import VmeSam3x.Fpga.Interleaving
import VmeSam3x.Udp.Callback
import VmeSam3x.Udp.Packet
import VmeSam3x.Udp.Reply
import VmeSam3x.Udp.Locals
import VmeSam3x.Udp.Framing
import VmeSam3x.Udp.RegisterFile
import VmeSam3x.Xvc.Server
import VmeSam3x.Xvc.Shift
import VmeSam3x.Xvc.Receive
import VmeSam3x.Xvc.Commands
import VmeSam3x.Xvc.Resume
import VmeSam3x.Xvc.Stream
import VmeSam3x.Xvc.Chain
import VmeSam3x.Xvc.Ownership
import VmeSam3x.Xvc.Pins
import VmeSam3x.Xvc.Waveform
import VmeSam3x.Xvc.Disable
import VmeSam3x.Xvc.Isolation
import VmeSam3x.Xvc.Representation
import VmeSam3x.Ethernet.Output
import VmeSam3x.TwiDriver.Driver
import VmeSam3x.TwiDriver.Completion
import VmeSam3x.TwiDriver.Nack
import VmeSam3x.Telnet.Console
import VmeSam3x.Telnet.LineBuffer
import VmeSam3x.Telnet.Session
import VmeSam3x.Telnet.Release
import VmeSam3x.Lib.CString
import VmeSam3x.Flash.ExtFlash
import VmeSam3x.Flash.Chip
import VmeSam3x.Flash.PowerCycle
import VmeSam3x.Serial.Monitor
import VmeSam3x.Serial.LineEditor
import VmeSam3x.Telnet.Numerals
import VmeSam3x.Serial.Numerals
import VmeSam3x.Serial.Erase
import VmeSam3x.Serial.Setup
import VmeSam3x.Telnet.DumpPointer
import VmeSam3x.TwiDriver.Pdc
import VmeSam3x.TwiDriver.Chunks
import VmeSam3x.TwiDriver.Transfer
import VmeSam3x.TwiDriver.Prompt
import VmeSam3x.Lib.Slots
import VmeSam3x.Lib.Layers
import VmeSam3x.EmacDriver.Transmit
import VmeSam3x.EmacDriver.Hardware
import VmeSam3x.EmacDriver.TxRing
import VmeSam3x.EmacDriver.Handler
import VmeSam3x.EmacDriver.Write
import VmeSam3x.EmacDriver.Queue
import VmeSam3x.EmacDriver.Reset
import VmeSam3x.EmacDriver.Transmission
import VmeSam3x.EmacDriver.Callbacks
import VmeSam3x.Ethernet.Input
import VmeSam3x.EmacDriver.Receive
import VmeSam3x.EmacDriver.Receiver
import VmeSam3x.EmacDriver.RxRing
import VmeSam3x.EmacDriver.Read
import VmeSam3x.EmacDriver.Reception
import VmeSam3x.EmacDriver.Delivery
import VmeSam3x.EmacDriver.Fragment
import VmeSam3x.SpiMaster.Master
import VmeSam3x.SpiMaster.Shifter
import VmeSam3x.SpiMaster.Waiting
import VmeSam3x.SpiMaster.Packets
import VmeSam3x.SpiMaster.Setup
import VmeSam3x.SpiMaster.Prompt
import VmeSam3x.Flash.Wire
import VmeSam3x.Flash.Upkeep
import VmeSam3x.Lib.Traces
import VmeSam3x.Serial.Console
import VmeSam3x.Serial.Session
import VmeSam3x.Serial.Dump
