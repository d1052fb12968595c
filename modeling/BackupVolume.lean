import BackupVolume.Attributes.Basic
import BackupVolume.Attributes.Listing
import BackupVolume.Attributes.Stat
import BackupVolume.Block.Draft
import BackupVolume.Block.Header
import BackupVolume.Block.Layout
import BackupVolume.Block.Loaded
import BackupVolume.Bytes
import BackupVolume.Calendar
import BackupVolume.Checksum.Adler32
import BackupVolume.Checksum.Crc32
import BackupVolume.Checksum.XxHash64
import BackupVolume.Chunk.Rehydration
import BackupVolume.Chunk.Store
import BackupVolume.Cipher.Aes256
import BackupVolume.Cipher.Gcm
import BackupVolume.CommandLine.Contents
import BackupVolume.CommandLine.Copy
import BackupVolume.CommandLine.Extract
import BackupVolume.CommandLine.Grammar
import BackupVolume.CommandLine.Program
import BackupVolume.CommandLine.Request
import BackupVolume.CommandLine.Setting
import BackupVolume.CommandLine.Word
import BackupVolume.Compression.Bits
import BackupVolume.Compression.Canonical
import BackupVolume.Compression.Codec
import BackupVolume.Compression.Container
import BackupVolume.Compression.Deflate
import BackupVolume.Compression.Lzo1x
import BackupVolume.Compression.Result
import BackupVolume.Compression.Scratch
import BackupVolume.Compression.Zlib
import BackupVolume.Compression.Zstandard.Basic
import BackupVolume.Compression.Zstandard.Block
import BackupVolume.Compression.Zstandard.Frame
import BackupVolume.Compression.Zstandard.Huffman
import BackupVolume.Compression.Zstandard.StateTable
import BackupVolume.Configuration
import BackupVolume.Device.Chain
import BackupVolume.Device.File
import BackupVolume.Device.Memory
import BackupVolume.Device.Octets
import BackupVolume.Device.Sink
import BackupVolume.Device.Source
import BackupVolume.Digest.Blake2b
import BackupVolume.Digest.Blake3
import BackupVolume.Digest.Words
import BackupVolume.Failure
import BackupVolume.FileTree.Basic
import BackupVolume.FileTree.Change
import BackupVolume.FileTree.Difference
import BackupVolume.FileTree.Fault
import BackupVolume.FileTree.Listing
import BackupVolume.FileTree.Path
import BackupVolume.IoFault
import BackupVolume.Job.Options
import BackupVolume.Job.Run
import BackupVolume.Job.Summary
import BackupVolume.Json.Reader
import BackupVolume.Json.Value
import BackupVolume.KeyDerivation.Argon2id
import BackupVolume.Main
import BackupVolume.Migration.Catalog
import BackupVolume.Migration.Copy
import BackupVolume.Number.Binary64
import BackupVolume.Proofs.Attributes.RoundTrip
import BackupVolume.Proofs.Attributes.Stat
import BackupVolume.Proofs.Block.Damage
import BackupVolume.Proofs.Block.Exactness
import BackupVolume.Proofs.Block.Flips
import BackupVolume.Proofs.Block.Format
import BackupVolume.Proofs.Block.Packing
import BackupVolume.Proofs.Block.Reading
import BackupVolume.Proofs.Checksum.Crc32
import BackupVolume.Proofs.Chunk.Rebuilding
import BackupVolume.Proofs.Chunk.References
import BackupVolume.Proofs.Compression.Growing
import BackupVolume.Proofs.Compression.Unpacking
import BackupVolume.Proofs.Compression.Wrapping
import BackupVolume.Proofs.Device.File
import BackupVolume.Proofs.Device.Octets
import BackupVolume.Proofs.Device.Traffic
import BackupVolume.Proofs.FileTree.Confinement
import BackupVolume.Proofs.FileTree.Enclosure
import BackupVolume.Proofs.FileTree.Filling
import BackupVolume.Proofs.FileTree.Making
import BackupVolume.Proofs.FileTree.Naming
import BackupVolume.Proofs.FileTree.Outline
import BackupVolume.Proofs.FileTree.Walk
import BackupVolume.Proofs.Job.Course
import BackupVolume.Proofs.Job.Ending
import BackupVolume.Proofs.Job.Passage
import BackupVolume.Proofs.Job.Policy
import BackupVolume.Proofs.Job.Tally
import BackupVolume.Proofs.Migration.BlockSize
import BackupVolume.Proofs.Migration.Closing
import BackupVolume.Proofs.Migration.Copying
import BackupVolume.Proofs.Migration.Entries
import BackupVolume.Proofs.Migration.ErrorPolicy
import BackupVolume.Proofs.Migration.Fidelity
import BackupVolume.Proofs.Migration.Handling
import BackupVolume.Proofs.Migration.Interruption
import BackupVolume.Proofs.Migration.Salvage
import BackupVolume.Proofs.Migration.Spooling
import BackupVolume.Proofs.Record.Advancing
import BackupVolume.Proofs.Record.Cutting
import BackupVolume.Proofs.Record.Pieces
import BackupVolume.Proofs.Record.Reassembly
import BackupVolume.Proofs.Record.Rewriting
import BackupVolume.Proofs.Record.Splitting
import BackupVolume.Proofs.Restore.Bookkeeping
import BackupVolume.Proofs.Restore.Calls
import BackupVolume.Proofs.Restore.Closing
import BackupVolume.Proofs.Restore.Confinement
import BackupVolume.Proofs.Restore.Decoded
import BackupVolume.Proofs.Restore.Decoding
import BackupVolume.Proofs.Restore.Foresight
import BackupVolume.Proofs.Restore.History
import BackupVolume.Proofs.Restore.Independence
import BackupVolume.Proofs.Restore.Keeping
import BackupVolume.Proofs.Restore.Lives
import BackupVolume.Proofs.Restore.LocalFiles
import BackupVolume.Proofs.Restore.Logging
import BackupVolume.Proofs.Restore.Origins
import BackupVolume.Proofs.Restore.Passage
import BackupVolume.Proofs.Restore.Progress
import BackupVolume.Proofs.Restore.Rehearsal
import BackupVolume.Proofs.Restore.Reporting
import BackupVolume.Proofs.Restore.RoundTrip
import BackupVolume.Proofs.Restore.Scopes
import BackupVolume.Proofs.Restore.Seeking
import BackupVolume.Proofs.Restore.Stages
import BackupVolume.Proofs.Restore.Stored
import BackupVolume.Proofs.Selection.Including
import BackupVolume.Proofs.Stream.Modifiers
import BackupVolume.Proofs.Text.Base64Integer
import BackupVolume.Proofs.Text.Integer
import BackupVolume.Proofs.Text.Utf8
import BackupVolume.Proofs.Volume.Accounting
import BackupVolume.Proofs.Volume.Chaining
import BackupVolume.Proofs.Volume.Exhaustion
import BackupVolume.Proofs.Volume.Failing
import BackupVolume.Proofs.Volume.Findings
import BackupVolume.Proofs.Volume.Gaps
import BackupVolume.Proofs.Volume.Handing
import BackupVolume.Proofs.Volume.Invariance
import BackupVolume.Proofs.Volume.Lengths
import BackupVolume.Proofs.Volume.Likeness
import BackupVolume.Proofs.Volume.Numbering
import BackupVolume.Proofs.Volume.Placement
import BackupVolume.Proofs.Volume.Recording
import BackupVolume.Proofs.Volume.Recovery
import BackupVolume.Proofs.Volume.Remains
import BackupVolume.Proofs.Volume.RoundTrip
import BackupVolume.Proofs.Volume.Sealing
import BackupVolume.Proofs.Volume.Secrecy
import BackupVolume.Proofs.Volume.Shelving
import BackupVolume.Proofs.Volume.Storing
import BackupVolume.Proofs.Volume.Truncation
import BackupVolume.Proofs.Volume.Wholeness
import BackupVolume.Record.Assembly
import BackupVolume.Record.Basic
import BackupVolume.Record.Piece
import BackupVolume.Restore.Action
import BackupVolume.Restore.Creator
import BackupVolume.Restore.Decoder
import BackupVolume.Restore.Extraction
import BackupVolume.Restore.LocalFiles
import BackupVolume.Selection.Bootstrap
import BackupVolume.Selection.Glob
import BackupVolume.Selection.PathFilter
import BackupVolume.Session
import BackupVolume.Stream.Kind
import BackupVolume.Stream.Tag
import BackupVolume.Text.Base64Integer
import BackupVolume.Text.Blank
import BackupVolume.Text.Hex
import BackupVolume.Text.Integer
import BackupVolume.Text.Padding
import BackupVolume.Text.Printable
import BackupVolume.Text.Quoted
import BackupVolume.Text.Utf8
import BackupVolume.Volume.Key
import BackupVolume.Volume.Reader
import BackupVolume.Volume.Traversal
import BackupVolume.Volume.Writer
