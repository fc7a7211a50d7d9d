import FatDir.Bytes
import FatDir.Entry
import FatDir.Text
import FatDir.LongName
import FatDir.Stream
import FatDir.Iter
import FatDir.Fields
import FatDir.IterSpec
import FatDir.Create
import FatDir.Locality
import FatDir.Group
import FatDir.CreateIter
import FatDir.Volume
import FatDir.Remove
import FatDir.Runs
import FatDir.Ends
import FatDir.ShortName
import FatDir.Paths
import FatDir.Assembler
import FatDir.Refine
