import Rmux.LayoutPresets
import Rmux.WindowLayout
import Rmux.WindowZoom
import Rmux.CommandReparse
import Rmux.SecureChannel
import Rmux.FrameCodec
import Rmux.OptionAtomicity
import Rmux.TargetMeaning
import Rmux.CopyModeSafety
import Rmux.InputReads
import Rmux.HookOneShots
import Rmux.ControlFlow
import Rmux.PasteMarkers
import Rmux.GroupSharing
import Rmux.GroupPlaces
import Rmux.Coalescing
import Rmux.RecentBytes
import Rmux.ControlLines
