import RegisterMachine.Bank
import RegisterMachine.CommandLine.Directory
import RegisterMachine.CommandLine.Report
import RegisterMachine.CommandLine.Request
import RegisterMachine.CommandLine.Session
import RegisterMachine.CommandLine.Size
import RegisterMachine.CommandLine.Token
import RegisterMachine.CommandLine.Usage
import RegisterMachine.Config
import RegisterMachine.ControlSequence
import RegisterMachine.Error
import RegisterMachine.Hexadecimal
import RegisterMachine.Instruction
import RegisterMachine.Machine.Basic
import RegisterMachine.Machine.Run
import RegisterMachine.Main
import RegisterMachine.Opcode
import RegisterMachine.Proofs.Addressing
import RegisterMachine.Proofs.BoundedList
import RegisterMachine.Proofs.Calls
import RegisterMachine.Proofs.Capacity
import RegisterMachine.Proofs.Checks
import RegisterMachine.Proofs.Control
import RegisterMachine.Proofs.Effects
import RegisterMachine.Proofs.EndOfProgram
import RegisterMachine.Proofs.Erasure
import RegisterMachine.Proofs.ErrorTexts
import RegisterMachine.Proofs.Executions
import RegisterMachine.Proofs.Faults
import RegisterMachine.Proofs.History
import RegisterMachine.Proofs.Image
import RegisterMachine.Proofs.Immediates
import RegisterMachine.Proofs.InOrder
import RegisterMachine.Proofs.Independence
import RegisterMachine.Proofs.InstructionSequence
import RegisterMachine.Proofs.InstructionTable
import RegisterMachine.Proofs.Invariant
import RegisterMachine.Proofs.Locality
import RegisterMachine.Proofs.Lockstep
import RegisterMachine.Proofs.Memory
import RegisterMachine.Proofs.Numerals
import RegisterMachine.Proofs.Patching
import RegisterMachine.Proofs.Policies
import RegisterMachine.Proofs.Polling
import RegisterMachine.Proofs.Renaming
import RegisterMachine.Proofs.Reports
import RegisterMachine.Proofs.Reset
import RegisterMachine.Proofs.Resumption
import RegisterMachine.Proofs.Settings
import RegisterMachine.Proofs.Spellings
import RegisterMachine.Proofs.StackDiscipline
import RegisterMachine.Proofs.Stages
import RegisterMachine.Proofs.Steps
import RegisterMachine.Proofs.Stopping
import RegisterMachine.Proofs.Termination
import RegisterMachine.Proofs.Unbounded
import RegisterMachine.Proofs.UnusedWords
import RegisterMachine.Resource
import RegisterMachine.Rom
import RegisterMachine.Stack
import RegisterMachine.Word
