import WardSweep.Safety.Spelling
import WardSweep.Safety.Panics
import WardSweep.Safety.Rewrites
import WardSweep.Safety.Reparse
import WardSweep.Safety.Aliases
import WardSweep.Scan.Unread
import WardSweep.Scan.Classified
import WardSweep.Scan.Images
import WardSweep.Scan.Ledger
import WardSweep.Observe.Late
import WardSweep.Observe.Privacy
import WardSweep.Suggest.Found
import WardSweep.Catalog.Validate
import WardSweep.Safety.Profiles
import WardSweep.Scan.Respelled
import WardSweep.Broker.Stream
import WardSweep.Broker.Store
import WardSweep.Broker.Frames
import WardSweep.Redact.Short
import WardSweep.Redact.Agree
import WardSweep.Redact.Parted
import WardSweep.Redact.Kind
import WardSweep.Suggest.Spared
import WardSweep.Suggest.Accounted
import WardSweep.Suggest.Expanded
import WardSweep.Safety.Sound
import WardSweep.Catalog.Confined
import WardSweep.Catalog.Plain
import WardSweep.Catalog.Product
import WardSweep.Scan.Judged
import WardSweep.Scan.KeyValues
import WardSweep.Scan.Epic
import WardSweep.Observe.Renamed
import WardSweep.Observe.Emptied
import WardSweep.Observe.Walk
import WardSweep.Observe.Roots
import WardSweep.Broker.Ends
import WardSweep.Observe.Admission
import WardSweep.Suggest.Exampled
import WardSweep.Suggest.Loadable
import WardSweep.Cli.Scan
import WardSweep.Observe.Registry
import WardSweep.Observe.Observed
import WardSweep.Suggest.Header
import WardSweep.Broker.Fleet
import WardSweep.Observe.Reached
