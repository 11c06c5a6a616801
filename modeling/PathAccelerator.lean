import PathAccelerator.Semantics.Clocked
import PathAccelerator.Search.FirstLeast
import PathAccelerator.Graph.ShortestPaths
import PathAccelerator.Hardware.Components
import PathAccelerator.Hardware.Accelerator
import PathAccelerator.Hardware.Refinement
import PathAccelerator.Hardware.ParallelSearch
import PathAccelerator.Hardware.Bounds
import PathAccelerator.Hardware.Windows
import PathAccelerator.Host.Routes
import PathAccelerator.Hardware.Events
import PathAccelerator.Host.Handshake
import PathAccelerator.Host.Prompts
import PathAccelerator.Display.Mouse
import PathAccelerator.Display.Raster
import PathAccelerator.Display.FrameBuffer
import PathAccelerator.Display.Screen
import PathAccelerator.Display.Painting
import PathAccelerator.Hardware.Visits
import PathAccelerator.Host.ShortestPathFind
import PathAccelerator.Host.Duration
import PathAccelerator.Display.Route
import PathAccelerator.Display.Locations
import PathAccelerator.Usb.Picture
import PathAccelerator.Usb.Controller
import PathAccelerator.Usb.Progress
