import InfiltratorFS.Iac1.RoundTrip
import InfiltratorFS.Volume.Savepoint
import InfiltratorFS.Checkpoint.FailClosed
import InfiltratorFS.File.MutatorSafety
import InfiltratorFS.File.Empty
import InfiltratorFS.Iac1.Decoder
import InfiltratorFS.Directory.CacheSafety
import InfiltratorFS.Metadata.SharedSet
import InfiltratorFS.Directory.RemovableNames
import InfiltratorFS.Directory.DeepTree
import InfiltratorFS.Checkpoint.Recovery
import InfiltratorFS.Native.Arenas
import InfiltratorFS.Native.ExtentLayout
import InfiltratorFS.Reflink.Isolation
import InfiltratorFS.Storage.Encrypted
import InfiltratorFS.Storage.Mirror
import InfiltratorFS.Checksums.Store
import InfiltratorFS.Extents.Replacement
import InfiltratorFS.Security.Inheritance
import InfiltratorFS.Reflink.UnsharedRun
import InfiltratorFS.File.Growth
import InfiltratorFS.Iac1.Payload
import InfiltratorFS.Format.Burst
