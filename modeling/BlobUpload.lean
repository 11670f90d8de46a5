import BlobUpload.BlockId
import BlobUpload.Bytes
import BlobUpload.Chunk
import BlobUpload.Cipher.AES
import BlobUpload.Cipher.Block
import BlobUpload.Cipher.Chaining
import BlobUpload.Cipher.Stream
import BlobUpload.Cipher.Substitution
import BlobUpload.Cutter
import BlobUpload.Delivery
import BlobUpload.Digest.ContentMD5
import BlobUpload.Digest.MD5
import BlobUpload.Duration
import BlobUpload.Error
import BlobUpload.Offset
import BlobUpload.Phase
import BlobUpload.Proofs.Cipher.Decryption
import BlobUpload.Proofs.Cipher.Encryption
import BlobUpload.Proofs.Cipher.PieceIndependence
import BlobUpload.Proofs.Cutter.CallSequence
import BlobUpload.Proofs.Cutter.EncryptedChunks
import BlobUpload.Proofs.Cutter.Equations
import BlobUpload.Proofs.Cutter.PlainChunks
import BlobUpload.Proofs.Cutter.SpanAgreement
import BlobUpload.Proofs.Cutter.SpanCover
import BlobUpload.Proofs.Pool.AcceptedRequests
import BlobUpload.Proofs.Pool.ByteConservation
import BlobUpload.Proofs.Pool.Completion
import BlobUpload.Proofs.Pool.CountedChunks
import BlobUpload.Proofs.Pool.ExhaustedSource
import BlobUpload.Proofs.Pool.FaultTolerance
import BlobUpload.Proofs.Pool.FiledTokens
import BlobUpload.Proofs.Pool.History
import BlobUpload.Proofs.Pool.Jobs
import BlobUpload.Proofs.Pool.Ledger
import BlobUpload.Proofs.Pool.Outcomes
import BlobUpload.Proofs.Pool.Progress
import BlobUpload.Proofs.Pool.Runs
import BlobUpload.Proofs.Pool.SentRequests
import BlobUpload.Proofs.Pool.SpanFronts
import BlobUpload.Proofs.Pool.StopFlag
import BlobUpload.Proofs.Service.Atomicity
import BlobUpload.Proofs.Service.ETagFreshness
import BlobUpload.Proofs.Service.Effects
import BlobUpload.Proofs.Service.Equivalence
import BlobUpload.Proofs.Service.Faults
import BlobUpload.Proofs.Service.PageWrites
import BlobUpload.Proofs.Service.Requests
import BlobUpload.Proofs.Service.Revisions
import BlobUpload.Proofs.Service.SharedAppends
import BlobUpload.Proofs.Service.SharedPages
import BlobUpload.Proofs.Service.StagedBlocks
import BlobUpload.Proofs.Service.WellFormedness
import BlobUpload.Proofs.Session.AbortPoints
import BlobUpload.Proofs.Session.AcceptedChunks
import BlobUpload.Proofs.Session.AppendRetries
import BlobUpload.Proofs.Session.Counts
import BlobUpload.Proofs.Session.ErrorOrigin
import BlobUpload.Proofs.Session.FaultSimulation
import BlobUpload.Proofs.Session.Lockstep
import BlobUpload.Proofs.Session.LostAnswers
import BlobUpload.Proofs.Session.Retries
import BlobUpload.Proofs.Session.SendEquations
import BlobUpload.Proofs.Session.TransientFaults
import BlobUpload.Proofs.Source.BufferFill
import BlobUpload.Proofs.Source.Generous
import BlobUpload.Proofs.Source.HeldBytes
import BlobUpload.Proofs.Source.ReadRecord
import BlobUpload.Proofs.Source.WellBehaved
import BlobUpload.Proofs.Upload.Aborts
import BlobUpload.Proofs.Upload.AppendFaults
import BlobUpload.Proofs.Upload.AppendLimits
import BlobUpload.Proofs.Upload.BlockIds
import BlobUpload.Proofs.Upload.Blocks
import BlobUpload.Proofs.Upload.ConcurrentAppends
import BlobUpload.Proofs.Upload.ConcurrentPages
import BlobUpload.Proofs.Upload.Dispatch
import BlobUpload.Proofs.Upload.EmptySource
import BlobUpload.Proofs.Upload.EncryptedContent
import BlobUpload.Proofs.Upload.FailureAtomicity
import BlobUpload.Proofs.Upload.FaultTransparency
import BlobUpload.Proofs.Upload.Gaps
import BlobUpload.Proofs.Upload.Lifecycle
import BlobUpload.Proofs.Upload.PageFaults
import BlobUpload.Proofs.Upload.Pages
import BlobUpload.Proofs.Upload.Reports
import BlobUpload.Proofs.Upload.SinglePut
import BlobUpload.Proofs.Upload.StreamEquivalence
import BlobUpload.Proofs.Upload.ValidRequests
import BlobUpload.Proofs.Upload.Workers
import BlobUpload.Proofs.Window.Bounds
import BlobUpload.Proofs.Window.Confinement
import BlobUpload.Proofs.Window.Refinement
import BlobUpload.Proofs.Window.SourceAccess
import BlobUpload.Proofs.Window.View
import BlobUpload.Service.Blob
import BlobUpload.Service.Relay
import BlobUpload.Service.Request
import BlobUpload.Settings
import BlobUpload.Source.Basic
import BlobUpload.Source.Reader
import BlobUpload.Source.Script
import BlobUpload.Source.Window
import BlobUpload.Text.Base64
import BlobUpload.Text.Numeral
import BlobUpload.Text.Printable
import BlobUpload.Text.Quoted
import BlobUpload.Text.Record
import BlobUpload.Upload.Basic
import BlobUpload.Upload.Pool.Basic
import BlobUpload.Upload.Pool.Run
import BlobUpload.Upload.Pool.Work
import BlobUpload.Upload.Sequential
import BlobUpload.Upload.Session
import BlobUpload.Writer
