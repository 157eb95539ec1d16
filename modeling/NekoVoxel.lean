import NekoVoxel.Types
import NekoVoxel.ContainerPos
import NekoVoxel.ForEachNode
import NekoVoxel.MapEditEvent
import NekoVoxel.Paging
import NekoVoxel.NodeRounding
import NekoVoxel.WrappedApproach
import NekoVoxel.Degrees
import NekoVoxel.Bits
import NekoVoxel.IntervalLimiter
import NekoVoxel.DirectionalLight
import NekoVoxel.Color
