import CompositorConf.Catalog.Standard.Devices
import CompositorConf.Catalog.Standard.Keywords
import CompositorConf.Catalog.Standard.System
import CompositorConf.Catalog.Standard.Windows

namespace CompositorConf.Catalog

def standard : Catalog where
  sections := [
    Standard.general, Standard.decoration, Standard.animations, Standard.input,
    Standard.gestures, Standard.group, Standard.misc, Standard.binds,
    Standard.xwayland, Standard.opengl, Standard.render, Standard.cursor,
    Standard.ecosystem, Standard.experimental, Standard.debug, Standard.master,
    Standard.dwindle]
  keywords := Standard.keywords

end CompositorConf.Catalog
