import WordMachine.Main
import WordMachine.Debugger.Screen
import WordMachine.Descriptor.Version
import WordMachine.Session
import WordMachine.Proofs.WriteProtection
import WordMachine.Proofs.ReadIsolation
import WordMachine.Proofs.GuestContainment
import WordMachine.Proofs.GuestConfinement
import WordMachine.Proofs.FaultAtomicity
import WordMachine.Proofs.SavedContext
import WordMachine.Proofs.Switch
import WordMachine.Proofs.ContextRoundTrip
import WordMachine.Proofs.MissingSlot
import WordMachine.Proofs.SlotSave
import WordMachine.Proofs.Reachable
import WordMachine.Proofs.FatalErrors
import WordMachine.Proofs.FullRange
import WordMachine.Proofs.Assembly
import WordMachine.Proofs.DataInstruction
import WordMachine.Proofs.InstructionFormat
import WordMachine.Proofs.Interruption
import WordMachine.Proofs.StackWords
import WordMachine.Proofs.InterruptDelivery
import WordMachine.Proofs.Timer
import WordMachine.Proofs.StackSteps
import WordMachine.Proofs.CallingConvention
import WordMachine.Proofs.AssembledListing
import WordMachine.Proofs.GuestBookkeeping
import WordMachine.Proofs.SegmentSnapshot
import WordMachine.Proofs.Drivers
import WordMachine.Proofs.Flags
import WordMachine.Proofs.UsedDebugger
import WordMachine.Proofs.Breakpoints
import WordMachine.Proofs.Resuming
import WordMachine.Proofs.TextPieces
import WordMachine.Proofs.CollectedText
import WordMachine.Proofs.LeaveFault
import WordMachine.Proofs.InterruptFrame
import WordMachine.Proofs.InstructionLength
import WordMachine.Proofs.TableParsing
import WordMachine.Proofs.VersionedTables
import WordMachine.Proofs.WriteHistory
import WordMachine.Proofs.AddressSums
import WordMachine.Proofs.ImageLoading
import WordMachine.Proofs.ProgramLayout
import WordMachine.Proofs.ListingRows
import WordMachine.Proofs.ForwardListing
import WordMachine.Proofs.NextInstruction
import WordMachine.Proofs.Traces
import WordMachine.Proofs.RegisterFile
