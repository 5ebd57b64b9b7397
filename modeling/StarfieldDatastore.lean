import StarfieldDatastore.Interleaving.Pool
import StarfieldDatastore.Consistency
import StarfieldDatastore.Redirect
import StarfieldDatastore.Quiescent
import StarfieldDatastore.WriteBack
import StarfieldDatastore.Identity
import StarfieldDatastore.Catalog
import StarfieldDatastore.Repair
import StarfieldDatastore.UploadRace
import StarfieldDatastore.Removal
import StarfieldDatastore.Transfer
import StarfieldDatastore.Mended
import StarfieldDatastore.Mirroring
import StarfieldDatastore.Eviction
import StarfieldDatastore.Selection
import StarfieldDatastore.ConfigRoundTrip
import StarfieldDatastore.Durable
import StarfieldDatastore.Deadlock
import StarfieldDatastore.NetrcText
import StarfieldDatastore.ManifestEdit
import StarfieldDatastore.Parts
import StarfieldDatastore.RedirectChain
import StarfieldDatastore.ConfigPrecedence
import StarfieldDatastore.Apart
import StarfieldDatastore.Failover
import StarfieldDatastore.Once
import StarfieldDatastore.Serving
import StarfieldDatastore.Leftovers
import StarfieldDatastore.Auditing
import StarfieldDatastore.Tending
import StarfieldDatastore.Conceal
