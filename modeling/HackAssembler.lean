import HackAssembler.CommandLine.Session
import HackAssembler.Main
import HackAssembler.Proofs.Acceptance
import HackAssembler.Proofs.Adjacency
import HackAssembler.Proofs.AlikeLines
import HackAssembler.Proofs.ConsoleRuns
import HackAssembler.Proofs.Delivery
import HackAssembler.Proofs.Disassembly
import HackAssembler.Proofs.EarlyErrors
import HackAssembler.Proofs.ErrorKinds
import HackAssembler.Proofs.ErrorPlaces
import HackAssembler.Proofs.Exports
import HackAssembler.Proofs.FileRuns
import HackAssembler.Proofs.FileSinks
import HackAssembler.Proofs.FinalTable
import HackAssembler.Proofs.FirstFault
import HackAssembler.Proofs.Gaps
import HackAssembler.Proofs.Interruption
import HackAssembler.Proofs.JoinedTexts
import HackAssembler.Proofs.Layout
import HackAssembler.Proofs.LeadingLines
import HackAssembler.Proofs.LexerSteps
import HackAssembler.Proofs.LineByLine
import HackAssembler.Proofs.Listings
import HackAssembler.Proofs.Locations
import HackAssembler.Proofs.MnemonicReaders
import HackAssembler.Proofs.QuotedKeys
import HackAssembler.Proofs.RenamedPrograms
import HackAssembler.Proofs.RenamedSources
import HackAssembler.Proofs.Respacing
import HackAssembler.Proofs.SourcePrograms
import HackAssembler.Proofs.TableHistories
import HackAssembler.Proofs.Tiling
import HackAssembler.Proofs.Translation
