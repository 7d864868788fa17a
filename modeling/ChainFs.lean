import ChainFs.Store.Memory
import ChainFs.Store.Counted
import ChainFs.Volume.Call
import ChainFs.Main
import ChainFs.Proofs.Volume.Accounting
import ChainFs.Proofs.Volume.Interrupted
import ChainFs.Proofs.Volume.Refinement
import ChainFs.Proofs.Volume.Stranded
import ChainFs.Proofs.Volume.BlockCount
import ChainFs.Proofs.Volume.Sizes
import ChainFs.Proofs.Volume.Confined
import ChainFs.Proofs.Volume.Independence
import ChainFs.Proofs.Volume.Reopened
import ChainFs.Proofs.Volume.Leftover
import ChainFs.Proofs.Mirror.Changes
import ChainFs.Proofs.Mount.Numbers
import ChainFs.Proofs.Mount.Pages
import ChainFs.Proofs.Mount.Timestamps
import ChainFs.Proofs.Words.Calls
import ChainFs.Proofs.Chain.Slice
import ChainFs.Proofs.Chain.Overlay
import ChainFs.Proofs.Mount.ReadOnly
import ChainFs.Proofs.Volume.Guarded
import ChainFs.Proofs.Volume.Rejected
import ChainFs.Proofs.Bitmap.Requests
import ChainFs.Proofs.Directory.Append
import ChainFs.Proofs.Regions.Division
import ChainFs.Proofs.Words.Layout
import ChainFs.Proofs.Volume.Paths
import ChainFs.Proofs.Volume.Unfinished
import ChainFs.Proofs.Directory.Restat
